import IecCore.Iec.LossStatistics
import Mathlib.Data.List.Chain

/-! # The detection of losses

Under the strategy of exceptions a validator stops at the first sample count that does not follow
the one before it. What it finds depends on the stream only, not on the sequences the stream is cut
into. The counts do not say which rate a stream has: zero is accepted after the last count of either
one, which is how a loss of the other rate can be overlooked.

* **`Succeeds before after`** — the counts that may follow one another (`follows_iff_succeeds`).
* **`feed_succeeds`**, **`feed_stops`** — a run without a violation, and a run to the first one.
* **`feed_ok_iff`** — a stream raises no exception precisely when it is a chain of `Succeeds`.
* **`update_stream`** — cutting a stream into sequences changes nothing, and the outcome of a
  stream; **`empty_stream_differs`** is the one exception.
* **`gaps`**, **`Overlooked`** — where samples are lost, and the one kind of loss that is not seen.
* **`detects_iff`** — losses are detected exactly when they happen, unless all of them are
  overlooked. -/

namespace IecCore

namespace Iec

namespace Validator

/-! ## One check -/

/-- The count `after` may come next after the count `before`: it is the next number, or the zero
behind the last count of a rate. -/
def Succeeds (before after : UInt16) : Prop :=
  after.toNat = before.toNat + 1 ∨ after = 0 ∧ (before = 3999 ∨ before = 12799)

instance : DecidableRel Succeeds := fun _ _ => inferInstanceAs (Decidable (_ ∨ _))

/-- A count is accepted after another precisely when it may come next: `Follows` is said with
integers, as in the source, and `Succeeds` with numbers. -/
theorem follows_iff_succeeds {before after : UInt16} :
    Follows before after ↔ Succeeds before after := by
  unfold Follows Succeeds Validator.min max80p max256p
  constructor
  · rintro (hround | hnext)
    · exact .inr hround
    · exact .inl (by omega)
  · rintro (hnext | hround)
    · exact .inr (by omega)
    · exact .inl hround

/-- The validator after a count it accepts under the strategy of exceptions. -/
def accepted (v : Validator) (smpSync : UInt16) : Validator :=
  { v with state := .correct, capturedSmpSync := smpSync }

/-- The first count has been seen, so that the next one is compared with it. -/
theorem accepted_ne_initial (v : Validator) (smpSync : UInt16) :
    (v.accepted smpSync).state ≠ .initial :=
  State.noConfusion

/-- Under the strategy of exceptions nothing is counted: `v.captured` is `v.accepted`. -/
theorem captured_eq_accepted {v : Validator} (hstrategy : v.strategy = .throwException)
    (smpSync : UInt16) : v.captured smpSync .correct 0 = v.accepted smpSync := by
  have hnot : v.strategy ≠ .statistics := by
    rw [hstrategy]
    exact nofun
  unfold captured accepted
  rw [if_neg hnot, UInt32.add_zero]

/-- A count that may come next is accepted, and stored: `validate after` ends in `v.accepted
after`. -/
theorem validate_succeeds {v : Validator} (hstrategy : v.strategy = .throwException)
    {before after : UInt16} (succeeds : Succeeds before after) :
    validate after (v.accepted before) = .ok () (v.accepted after) := by
  have hstrategy' : (v.accepted before).strategy = .throwException := hstrategy
  rw [validate_follows (v.accepted_ne_initial before) (follows_iff_succeeds.mpr succeeds),
    captured_eq_accepted hstrategy']
  rfl

/-- A count that does not follow is an exception, and the counts stay as they were. -/
theorem validate_throws {v : Validator} {smpSync : UInt16} (hstate : v.state ≠ .initial)
    (hstrategy : v.strategy = .throwException) (follows : ¬ Follows v.capturedSmpSync smpSync) :
    validate smpSync v = .error "Packet missed" { v with state := .incorrect } := by
  obtain ⟨hmin, hnext⟩ := not_or.mp follows
  unfold validate
  rw [bind_get, if_neg hstate, if_neg hmin, if_neg hnext, if_pos hstrategy]
  rfl

/-! ## A run -/

/-- **A run without a violation** captures the last count, by induction on the counts. -/
theorem feed_succeeds {v : Validator} (hstrategy : v.strategy = .throwException)
    {before : UInt16} {counts : List UInt16} (succeeds : (before :: counts).IsChain Succeeds) :
    forM counts validate (v.accepted before) = .ok () (v.accepted (counts.getLastD before)) := by
  induction counts generalizing before with
  | nil => rfl
  | cons after counts ih =>
      obtain ⟨hhead, htail⟩ := List.isChain_cons_cons.mp succeeds
      rw [List.forM_cons, bind_of_ok (validate_succeeds hstrategy hhead), List.getLastD_cons]
      exact ih htail

/-- **A run to the first violation** keeps the last count that was accepted; the rest is not looked
at. -/
theorem feed_stops {v : Validator} (hstrategy : v.strategy = .throwException)
    {first last next : UInt16} {counts rest : List UInt16} (hlast : counts.getLastD first = last)
    (succeeds : (first :: counts).IsChain Succeeds) (violation : ¬ Succeeds last next) :
    forM (counts ++ next :: rest) validate (v.accepted first) =
      .error "Packet missed" { v.accepted last with state := .incorrect } := by
  have hvalidate := validate_throws (v.accepted_ne_initial last) hstrategy
    (mt follows_iff_succeeds.mp violation)
  rw [List.forM_append, bind_of_ok (feed_succeeds hstrategy succeeds), hlast, List.forM_cons,
    bind_of_error hvalidate]

/-- The first count of a stream is accepted, whatever it is: the rest is fed to `v.accepted
first`. -/
theorem feed_first {v : Validator} (hstate : v.state = .initial)
    (hstrategy : v.strategy = .throwException) (first : UInt16) (counts : List UInt16) :
    forM (first :: counts) validate v = forM counts validate (v.accepted first) := by
  rw [List.forM_cons, bind_of_ok (validate_initial first hstate), captured_eq_accepted hstrategy]

/-- A stream that breaks off has a first violation, with a chain before it. -/
theorem exists_first_violation {counts : List UInt16} (h : ¬ counts.IsChain Succeeds) :
    ∃ first before last next rest, counts = first :: (before ++ next :: rest) ∧
      before.getLastD first = last ∧ (first :: before).IsChain Succeeds ∧
      ¬ Succeeds last next := by
  induction counts with
  | nil => exact absurd List.IsChain.nil h
  | cons first counts ih =>
      cases counts with
      | nil => exact absurd (List.IsChain.singleton first) h
      | cons next rest =>
          by_cases hhead : Succeeds first next
          · have htail : ¬ (next :: rest).IsChain Succeeds := fun htail =>
              h (List.isChain_cons_cons.mpr ⟨hhead, htail⟩)
            obtain ⟨_, before, last, after, rest', hcounts, hlast, hbefore, hviolation⟩ := ih htail
            obtain ⟨rfl, rfl⟩ := List.cons.inj hcounts
            have hlast' : (next :: before).getLastD first = last := by
              rw [List.getLastD_cons, hlast]
            exact ⟨first, next :: before, last, after, rest', rfl, hlast',
              List.isChain_cons_cons.mpr ⟨hhead, hbefore⟩, hviolation⟩
          · -- the violation is at the head
            exact ⟨first, [], first, next, rest, rfl, rfl, List.IsChain.singleton first, hhead⟩

/-- A stream raises no exception precisely when each of its counts may come next. -/
theorem feed_ok_iff {v : Validator} (hstate : v.state = .initial)
    (hstrategy : v.strategy = .throwException) (counts : List UInt16) :
    (∃ w, forM counts validate v = .ok () w) ↔ counts.IsChain Succeeds := by
  constructor
  · rintro ⟨w, hw⟩
    -- a stream that is no chain stops at its first violation
    by_contra h
    obtain ⟨first, before, last, next, rest, rfl, hlast, succeeds, violation⟩ :=
      exists_first_violation h
    rw [feed_first hstate hstrategy, feed_stops hstrategy hlast succeeds violation] at hw
    cases hw
  · intro succeeds
    cases counts with
    | nil => exact ⟨v, rfl⟩
    | cons first counts =>
        exact ⟨_, by rw [feed_first hstate hstrategy, feed_succeeds hstrategy succeeds]⟩

/-- **The first violation** of a stream is an exception that keeps the last accepted count. -/
theorem feed_first_violation {v : Validator} (hstate : v.state = .initial)
    (hstrategy : v.strategy = .throwException) {before rest : List UInt16} {last next : UInt16}
    (succeeds : (before ++ [last]).IsChain Succeeds) (violation : ¬ Succeeds last next) :
    forM (before ++ last :: next :: rest) validate v =
      .error "Packet missed" { v.accepted last with state := .incorrect } := by
  -- the violation may be the second count already, right behind the one that is not compared
  cases before with
  | nil =>
      rw [List.nil_append, feed_first hstate hstrategy]
      exact @feed_stops v hstrategy last last next [] rest rfl succeeds violation
  | cons first before =>
      have hlast : (before ++ [last]).getLastD first = last := List.getLastD_concat ..
      have hrest : before ++ last :: next :: rest = (before ++ [last]) ++ next :: rest := by
        rw [List.append_assoc, List.singleton_append]
      rw [List.cons_append, feed_first hstate hstrategy, hrest]
      exact feed_stops hstrategy hlast succeeds violation

/-! ## Streams cut into sequences -/

/-- **Validation depends on the stream.** Fed in non-empty sequences, a stream that is not empty
has the outcome it has when it is fed at once. Under the strategy of exceptions a restarted
validator raises none precisely when each count may come next, and the first that may not is an
exception that leaves the last accepted count and both counters. -/
theorem update_stream {stream : List ASDU} (received : stream ≠ []) {parts : List (List ASDU)}
    (nonempty : ∀ part ∈ parts, part ≠ []) (cut : parts.flatten = stream) (v : Validator) :
    forM parts update v = update stream v ∧
    (v.Restarted →
      ((∃ w, forM parts update (v.setStrategy .throwException) = .ok () w) ↔
        (stream.map ASDU.smpCnt).IsChain Succeeds) ∧
      ∀ before last next rest, stream.map ASDU.smpCnt = before ++ last :: next :: rest →
        (before ++ [last]).IsChain Succeeds → ¬ Succeeds last next →
        forM parts update (v.setStrategy .throwException) = .error "Packet missed"
          { v.setStrategy .throwException with capturedSmpSync := last, state := .incorrect }) := by
  -- a feed in sequences is a feed of all their counts
  have hcounts : forM parts update = forM (stream.map ASDU.smpCnt) validate := by
    rw [forM_update nonempty, cut]
  refine ⟨by rw [hcounts, update_eq received], fun hv => ⟨?_, ?_⟩⟩
  · rw [hcounts]
    exact feed_ok_iff (v := v.setStrategy .throwException) hv.initial.1 rfl _
  · intro before last next rest hstream succeeds violation
    rw [hcounts, hstream]
    exact feed_first_violation (v := v.setStrategy .throwException) hv.initial.1 rfl succeeds
      violation

/-- A stream with a lost sample, cut in two, and a new validator: the exception keeps the count
five. -/
theorem update_stream_two :
    forM [[counted 5], [counted 7]] update new = update [counted 5, counted 7] new ∧
    ((∃ w, forM [[counted 5], [counted 7]] update (new.setStrategy .throwException) = .ok () w) ↔
      ([counted 5, counted 7].map ASDU.smpCnt).IsChain Succeeds) ∧
    forM [[counted 5], [counted 7]] update (new.setStrategy .throwException) =
      .error "Packet missed"
        { new.setStrategy .throwException with capturedSmpSync := 5, state := .incorrect } := by
  have nonempty : ∀ part ∈ [[counted 5], [counted 7]], part ≠ [] := by decide
  obtain ⟨hcut, hrestarted⟩ := update_stream (List.cons_ne_nil (counted 5) [counted 7]) nonempty
    rfl new
  obtain ⟨hok, hviolation⟩ := hrestarted (.inl rfl)
  exact ⟨hcut, hok, hviolation [] 5 7 [] rfl (.singleton 5) (by decide)⟩

/-- The empty stream is cut into no sequences, and no update is made; fed at once it is an
exception. -/
theorem empty_stream_differs :
    ¬ ∀ (stream : List ASDU) (parts : List (List ASDU)), (∀ part ∈ parts, part ≠ []) →
      parts.flatten = stream → ∀ v, forM parts update v = update stream v := by
  intro h
  have hempty : forM [] update new = update [] new := h [] [] (by simp) rfl new
  cases hempty

/-! ## Lost samples -/

/-- The gaps in which samples are lost: the received positions before and after them. -/
def gaps : List Nat → List (Nat × Nat)
  | before :: after :: rest =>
      if after = before + 1 then gaps (after :: rest) else (before, after) :: gaps (after :: rest)
  | _ => []

/-- A gap that is **overlooked**: at 256 points per period it goes from count `3999`, the last one
of the other rate, to the start of a round. -/
def Overlooked (m : Nat) (gap : Nat × Nat) : Prop :=
  m = 12799 ∧ gap.1 % (m + 1) = 3999 ∧ gap.2 % (m + 1) = 0

instance (m : Nat) (gap : Nat × Nat) : Decidable (Overlooked m gap) :=
  inferInstanceAs (Decidable (_ ∧ _))

/-- The lost positions of a stream: those between the first and the last received one that were not
received. -/
def lost : List Nat → Finset Nat
  | [] => ∅
  | first :: rest => unreceived first rest

/-- The count after a gap may come next precisely when no sample is lost or the loss is
overlooked. -/
theorem succeeds_smpCntAt {m before after : Nat} (hm : m = 3999 ∨ m = 12799) (hlt : before < after)
    (hgap : after - before ≤ m) :
    Succeeds (smpCntAt m before) (smpCntAt m after) ↔
      after = before + 1 ∨ Overlooked m (before, after) := by
  unfold Overlooked
  rw [← follows_iff_succeeds, follows_smpCntAt hm]
  rcases hm with rfl | rfl
  · constructor <;> intro h <;> omega
  · constructor <;> intro h <;> omega

/-- A stream has no violation precisely when all its gaps are overlooked, by induction on the
positions. -/
theorem isChain_succeeds_iff {m : Nat} (hm : m = 3999 ∨ m = 12799) {positions : List Nat}
    (received : Received m positions) :
    (positions.map (smpCntAt m)).IsChain Succeeds ↔
      ∀ gap ∈ gaps positions, Overlooked m gap := by
  fun_induction gaps positions with
  | case1 before rest ih =>
      obtain ⟨⟨hlt, hgap⟩, hrest⟩ := List.isChain_cons_cons.mp received
      rw [List.map_cons, List.map_cons, List.isChain_cons_cons, ← List.map_cons, ih hrest,
        succeeds_smpCntAt hm hlt hgap]
      exact and_iff_right (.inl rfl)
  | case2 before after rest hafter ih =>
      -- a gap is a violation unless it is overlooked
      obtain ⟨⟨hlt, hgap⟩, hrest⟩ := List.isChain_cons_cons.mp received
      rw [List.map_cons, List.map_cons, List.isChain_cons_cons, ← List.map_cons, ih hrest,
        succeeds_smpCntAt hm hlt hgap, or_iff_right hafter, List.forall_mem_cons]
  | case3 positions hshort =>
      have hchain : (positions.map (smpCntAt m)).IsChain Succeeds := by
        rcases positions with _ | ⟨before, _ | ⟨after, rest⟩⟩
        · exact .nil
        · exact .singleton _
        · exact absurd rfl (hshort before after rest)
      exact iff_of_true hchain fun gap hgap => absurd hgap List.not_mem_nil

/-- The last received position is reached in single steps precisely when there is no gap. -/
theorem getLastD_eq_iff {m first : Nat} {rest : List Nat} (received : Received m (first :: rest)) :
    rest.getLastD first = first + rest.length ↔ gaps (first :: rest) = [] := by
  induction rest generalizing first with
  | nil => exact iff_of_true rfl rfl
  | cons after rest ih =>
      obtain ⟨⟨hlt, -⟩, hrest⟩ := List.isChain_cons_cons.mp received
      have hcard := card_unreceived_add hrest
      have hih := ih hrest
      rw [List.getLastD_cons, List.length_cons, gaps]
      -- a step that is not single leaves positions behind that no later step makes up for
      by_cases hafter : after = first + 1
      · rw [if_pos hafter, ← hih]
        omega
      · rw [if_neg hafter]
        refine iff_of_false ?_ (List.cons_ne_nil _ _)
        omega

/-- **Samples are lost** precisely when there is a gap: both say that a position is missing. -/
theorem lost_nonempty_iff {m : Nat} {positions : List Nat} (received : Received m positions) :
    (lost positions).Nonempty ↔ gaps positions ≠ [] := by
  cases positions with
  | nil => exact iff_of_false Finset.not_nonempty_empty fun h => h rfl
  | cons first rest =>
      have hcard := card_unreceived_add received
      rw [lost, ← Finset.card_pos, Ne, ← getLastD_eq_iff received]
      omega

/-- **Losses are detected exactly when they happen**, precisely when there is none or one of them
is not overlooked. -/
theorem detects_iff {m : Nat} (hm : m = 3999 ∨ m = 12799) {positions : List Nat}
    (received : Received m positions) {v : Validator} (hv : v.Restarted)
    {parts : List (List ASDU)} (nonempty : ∀ part ∈ parts, part ≠ [])
    (fed : parts.flatten.map ASDU.smpCnt = positions.map (smpCntAt m)) :
    ((∃ message w, forM parts update (v.setStrategy .throwException) = .error message w) ↔
      (lost positions).Nonempty) ↔
    (gaps positions = [] ∨ ∃ gap ∈ gaps positions, ¬ Overlooked m gap) := by
  have hok := feed_ok_iff (v := v.setStrategy .throwException) hv.initial.1 rfl
    (positions.map (smpCntAt m))
  rw [← fed, ← forM_update nonempty, fed, isChain_succeeds_iff hm received] at hok
  have hthrows : (∃ message w, forM parts update (v.setStrategy .throwException) =
      .error message w) ↔ ∃ gap ∈ gaps positions, ¬ Overlooked m gap := by
    have hall : (¬ ∃ gap ∈ gaps positions, ¬ Overlooked m gap) ↔
        ∀ gap ∈ gaps positions, Overlooked m gap := by
      simp only [not_exists, not_and, not_not]
    rw [← not_iff_not, hall, ← hok]
    cases forM parts update (v.setStrategy .throwException) with
    | ok _ w => exact iff_of_true nofun ⟨w, rfl⟩
    | error message w => exact iff_of_false (fun h => h ⟨message, w, rfl⟩) nofun
  rw [hthrows, lost_nonempty_iff received]
  -- an exception comes from some gap, so it can only be missing
  constructor
  · intro h
    by_cases hnil : gaps positions = []
    · exact .inl hnil
    · exact .inr (h.mpr hnil)
  · rintro (hnil | hsome)
    · rw [hnil]
      exact iff_of_false (by simp) fun h => h rfl
    · refine iff_of_true hsome ?_
      obtain ⟨gap, hmem, -⟩ := hsome
      exact List.ne_nil_of_mem hmem

/-- At 80 points per period, three samples around the end of a round and one lost after them: it is
found. -/
theorem detects_iff_round :
    ((∃ message w, forM [[counted 3998, counted 3999], [counted 0], [counted 2]] update
        (new.setStrategy .throwException) = .error message w) ↔
      (lost [3998, 3999, 4000, 4002]).Nonempty) ↔
    (gaps [3998, 3999, 4000, 4002] = [] ∨
      ∃ gap ∈ gaps [3998, 3999, 4000, 4002], ¬ Overlooked 3999 gap) :=
  detects_iff (.inl rfl) (by decide) (.inl rfl) (by decide) (by decide)

/-- At 256 points per period, all samples after count `3999` to the end of the round are lost and no
exception is raised. -/
theorem overlooked_gap_undetected :
    Received 12799 [3999, 12800] ∧
    [[counted 3999, counted 0]].flatten.map ASDU.smpCnt = [3999, 12800].map (smpCntAt 12799) ∧
    4000 ∈ lost [3999, 12800] ∧
    ∃ w, forM [[counted 3999, counted 0]] update (new.setStrategy .throwException) = .ok () w := by
  refine ⟨by decide, by decide, ?_, _, rfl⟩
  exact Finset.mem_sdiff.mpr ⟨Finset.mem_Icc.mpr ⟨by decide, by decide⟩, by decide⟩

end Validator

end Iec

end IecCore
