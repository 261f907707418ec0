import IecCore.Iec.Validator
import Mathlib.Data.Int.ModEq
import Mathlib.Order.Interval.Finset.Nat

/-! # The loss statistics of the validator

The sample count of a stream runs `0, 1, …, m` and starts again, so that the sample at a position of
the stream carries the position modulo `m + 1`. A receiver gets some of the positions and feeds
their counts to a validator that counts the samples lost between them. The validator subtracts the
counts and does not know of the round: a gap over the end of a round is short by `m + 1`.

* **`smpCntAt m position`**, **`Received m positions`**, **`unreceived first rest`** — the stream,
  what is received of it and what is lost.
* **`shortfall m before after`** — by how much the validator counts too few samples in one gap.
* **`missedBy_add_shortfall`** — the shortfall of one gap is what the counter lacks, modulo `2 ^ 32`.
* **`feed_statistics`**, **`update_statistics`** — the counters after a run.
* **`card_unreceived_add`** — the lost positions and the received ones are all positions.
* **`statistics_exact_iff`** — the statistics are exact precisely when the shortfalls of the gaps
  add up to a multiple of the range of the counter, in particular when no gap has one. -/

namespace IecCore

namespace Iec

namespace Validator

/-! ## The stream -/

/-- The sample count at a position of a stream whose counts run from `0` to `m`. -/
def smpCntAt (m position : Nat) : UInt16 := UInt16.ofNat (position % (m + 1))

/-- Received positions: each is later than the one before it, by at most `m`, so that no whole round
is lost. -/
def Received (m : Nat) (positions : List Nat) : Prop :=
  positions.IsChain fun before after => before < after ∧ after - before ≤ m

instance (m : Nat) (positions : List Nat) : Decidable (Received m positions) :=
  inferInstanceAs (Decidable (List.IsChain _ positions))

/-- The positions between the first and the last received one that were not received, as a set. -/
def unreceived (first : Nat) (rest : List Nat) : Finset Nat :=
  Finset.Icc first (rest.getLastD first) \ (first :: rest).toFinset

/-- The number of lost samples that the validator fails to count between two received positions. A
gap inside one round of the counter is counted in full, and so is the step from `m` to `0`. A gap
that goes on into the next round is counted short by the whole round, except that the validator
takes `0` after `3999` for the start of the next round at either rate. -/
def shortfall (m before after : Nat) : Nat :=
  if before / (m + 1) = after / (m + 1) ∨ after = before + 1 then 0
  else if before % (m + 1) = 3999 ∧ after % (m + 1) = 0 then after - before - 1
  else m + 1

/-- The shortfalls of all gaps, added up over the received positions. -/
def shortfalls (m : Nat) : Nat → List Nat → Nat
  | _, [] => 0
  | before, after :: rest => shortfall m before after + shortfalls m after rest

/-! ## One gap -/

/-- What a check adds to `missedCount`: nothing when the count follows, else the difference as a
`u32`. -/
def missedBy (captured smpSync : UInt16) : UInt32 :=
  if Follows captured smpSync then 0
  else UInt32.ofInt (smpSync.toNat - (captured.toNat + 1))

/-- A check under the strategy of statistics, after the first: it raises no exception, and adds
`missedBy`. -/
theorem validate_statistics {v : Validator} (smpSync : UInt16) (hstate : v.state ≠ .initial)
    (hstrategy : v.strategy = .statistics) :
    ∃ state, state ≠ .initial ∧ validate smpSync v =
      .ok () (v.captured smpSync state (missedBy v.capturedSmpSync smpSync)) := by
  by_cases follows : Follows v.capturedSmpSync smpSync
  · refine ⟨.correct, by decide, ?_⟩
    rw [missedBy, if_pos follows, validate_follows hstate follows]
  · refine ⟨.incorrect, by decide, ?_⟩
    rw [missedBy, if_neg follows, validate_missed hstate hstrategy follows]

/-- The counts of both rates fit in a word, so that they are the positions modulo `m + 1`. -/
theorem smpCntAt_toNat {m : Nat} (hm : m = 3999 ∨ m = 12799) (position : Nat) :
    (smpCntAt m position).toNat = position % (m + 1) := by
  have hlt : position % (m + 1) < m + 1 := Nat.mod_lt _ m.succ_pos
  rw [smpCntAt, UInt16.toNat_ofNat']
  exact Nat.mod_eq_of_lt (by omega)

/-- When the count of a position follows the count of another: at the end of a round, of either
rate, or by one. -/
theorem follows_smpCntAt {m : Nat} (hm : m = 3999 ∨ m = 12799) (before after : Nat) :
    Follows (smpCntAt m before) (smpCntAt m after) ↔
      after % (m + 1) = 0 ∧ (before % (m + 1) = 3999 ∨ before % (m + 1) = 12799) ∨
        after % (m + 1) = before % (m + 1) + 1 := by
  unfold Follows Validator.min max80p max256p
  rw [← UInt16.toNat_inj, ← UInt16.toNat_inj, ← UInt16.toNat_inj, smpCntAt_toNat hm,
    smpCntAt_toNat hm]
  have hzero : (0 : UInt16).toNat = 0 := rfl
  have h80 : (3999 : UInt16).toNat = 3999 := rfl
  have h256 : (12799 : UInt16).toNat = 12799 := rfl
  rw [hzero, h80, h256]
  omega

/-- The conversion of an `int` to a `u32` is modulo `2 ^ 32`, so that a negative number of missed
samples becomes a large one. -/
theorem toNat_ofInt (missed : Int) : (UInt32.ofInt missed).toNat = (missed % 2 ^ 32).toNat := by
  rw [UInt32.ofInt, UInt32.toNat_ofNat']
  exact Nat.mod_eq_of_lt (by omega)

/-- The conversion of a number of lost samples that is short by a count, modulo `2 ^ 32`. -/
theorem ofInt_add_modEq {missed : Int} {short lost : Nat} (hshort : missed + short = lost) :
    (UInt32.ofInt missed).toNat + short ≡ lost [MOD 2 ^ 32] := by
  rw [toNat_ofInt, Nat.ModEq]
  omega

/-- Two received positions stand in the same round of the counter, or in rounds one after the
other. -/
theorem rounds_of_gap {m before after : Nat} (hlt : before < after) (hgap : after - before ≤ m) :
    before / (m + 1) = after / (m + 1) ∧
        after % (m + 1) = before % (m + 1) + (after - before) ∨
      before / (m + 1) ≠ after / (m + 1) ∧
        after % (m + 1) + (m + 1) = before % (m + 1) + (after - before) := by
  have hgapMod : (after - before) % (m + 1) = after - before := Nat.mod_eq_of_lt (by omega)
  have hgapDiv : (after - before) / (m + 1) = 0 := Nat.div_eq_of_lt (by omega)
  have hafter : after = before + (after - before) := by omega
  -- the gap is shorter than a round, and runs over its end or does not
  by_cases hround : before % (m + 1) + (after - before) % (m + 1) < m + 1
  · have hmod := Nat.add_mod_of_add_mod_lt hround
    have hdiv := Nat.add_div_eq_of_add_mod_lt hround
    rw [← hafter, hgapMod] at hmod
    rw [← hafter, hgapDiv] at hdiv
    exact .inl ⟨by omega, hmod⟩
  · have hmod := Nat.add_mod_add_of_le_add_mod (Nat.not_lt.mp hround)
    have hdiv := Nat.add_div_eq_of_le_mod_add_mod (Nat.not_lt.mp hround) m.succ_pos
    rw [← hafter, hgapMod] at hmod
    rw [← hafter, hgapDiv] at hdiv
    exact .inr ⟨by omega, hmod⟩

/-- **One gap.** What a check adds and the shortfall of the gap make the number of lost samples, up
to the range of the counter. -/
theorem missedBy_add_shortfall {m before after : Nat} (hm : m = 3999 ∨ m = 12799)
    (hlt : before < after) (hgap : after - before ≤ m) :
    (missedBy (smpCntAt m before) (smpCntAt m after)).toNat + shortfall m before after ≡
      after - before - 1 [MOD 2 ^ 32] := by
  have hrounds := rounds_of_gap hlt hgap
  have hbefore : before % (m + 1) < m + 1 := Nat.mod_lt _ m.succ_pos
  rw [shortfall, missedBy]
  by_cases follows : Follows (smpCntAt m before) (smpCntAt m after)
  · have hzero : (0 : UInt32).toNat = 0 := rfl
    rw [if_pos follows, hzero, Nat.ModEq]
    rw [follows_smpCntAt hm] at follows
    generalize before % (m + 1) = b at *
    generalize after % (m + 1) = a at *
    rcases hrounds with ⟨hround, ha⟩ | ⟨hround, ha⟩
    · rw [if_pos (.inl hround)]
      omega
    · split_ifs with hnone hrate
      · omega
      · rw [Nat.zero_add]
      · -- the count of the other rate does not occur
        omega
  · rw [if_neg follows]
    refine ofInt_add_modEq ?_
    rw [smpCntAt_toNat hm, smpCntAt_toNat hm]
    rw [follows_smpCntAt hm] at follows
    generalize before % (m + 1) = b at *
    generalize after % (m + 1) = a at *
    rcases hrounds with ⟨hround, ha⟩ | ⟨hround, ha⟩
    · rw [if_pos (.inl hround)]
      omega
    · split_ifs with hnone hrate
      · -- the step from `m` to `0` follows
        have hafter := hnone.resolve_left hround
        exact absurd (.inl ⟨by omega, by omega⟩) follows
      · exact absurd (.inl ⟨hrate.2, .inl hrate.1⟩) follows
      · -- the difference of the counts is short by the round
        omega

/-! ## A run -/

/-- **A run after the first count.** Every count is captured; the counter of lost samples lacks the
shortfalls. -/
theorem feed_statistics {m : Nat} (hm : m = 3999 ∨ m = 12799) {first : Nat} {rest : List Nat}
    (received : Received m (first :: rest)) {v : Validator} (hstate : v.state ≠ .initial)
    (hstrategy : v.strategy = .statistics) (hlast : v.capturedSmpSync = smpCntAt m first) :
    ∃ w, forM (rest.map (smpCntAt m)) validate v = .ok () w ∧
      w.capturedCount = v.capturedCount + UInt64.ofNat rest.length ∧
      w.missedCount.toNat + shortfalls m first rest + (first + rest.length) ≡
        v.missedCount.toNat + rest.getLastD first [MOD 2 ^ 32] := by
  -- the counter is known up to a multiple of 2 ^ 32 only, as single gaps may take it below zero
  induction rest generalizing first v with
  | nil =>
      refine ⟨v, rfl, (UInt64.add_zero _).symm, ?_⟩
      exact Nat.ModEq.refl _
  | cons after rest ih =>
      obtain ⟨⟨hlt, hgap⟩, hrest⟩ := List.isChain_cons_cons.mp received
      obtain ⟨state, hnot, hvalidate⟩ := validate_statistics (smpCntAt m after) hstate hstrategy
      rw [hlast] at hvalidate
      obtain ⟨w, hrun, hcaptured, hmissed⟩ := ih hrest (v := v.captured (smpCntAt m after) state
        (missedBy (smpCntAt m first) (smpCntAt m after))) hnot hstrategy rfl
      refine ⟨w, ?_, ?_, ?_⟩
      · rw [List.map_cons, List.forM_cons, bind_of_ok hvalidate, hrun]
      · rw [hcaptured, captured_capturedCount hstrategy, List.length_cons, Nat.add_comm,
          UInt64.ofNat_add, ← UInt64.add_assoc]
        rfl
      · have hone := missedBy_add_shortfall hm hlt hgap
        have hsum := UInt32.toNat_add v.missedCount
          (missedBy (smpCntAt m first) (smpCntAt m after))
        rw [captured_missedCount] at hmissed
        rw [shortfalls, List.length_cons, List.getLastD_cons]
        unfold Nat.ModEq at hone hmissed ⊢
        omega

/-! ## The number of lost samples -/

/-- Received positions grow, over any distance: `positions.Pairwise (· < ·)`. -/
theorem Received.pairwise {m : Nat} {positions : List Nat} (received : Received m positions) :
    positions.Pairwise (· < ·) := by
  have hchain : positions.IsChain (· < ·) := received.imp fun _ _ h => h.1
  exact List.isChain_iff_pairwise.mp hchain

/-- Every received position lies between the first and the last, by induction on the list. -/
theorem Received.subset_Icc {m first : Nat} {rest : List Nat}
    (received : Received m (first :: rest)) :
    (first :: rest).toFinset ⊆ Finset.Icc first (rest.getLastD first) := by
  induction rest generalizing first with
  | nil => exact fun k hk => by simpa using hk
  | cons after rest ih =>
      obtain ⟨⟨hlt, -⟩, hrest⟩ := List.isChain_cons_cons.mp received
      intro k hk
      rw [List.toFinset_cons, Finset.mem_insert] at hk
      rw [List.getLastD_cons]
      have hafter := Finset.mem_Icc.mp (ih hrest (List.mem_toFinset.mpr List.mem_cons_self))
      rcases hk with rfl | hk
      · exact Finset.mem_Icc.mpr ⟨le_refl k, by omega⟩
      · have hmem := Finset.mem_Icc.mp (ih hrest hk)
        exact Finset.mem_Icc.mpr ⟨by omega, hmem.2⟩

/-- The lost positions and the received ones make up all positions from the first to the last. -/
theorem card_unreceived_add {m first : Nat} {rest : List Nat}
    (received : Received m (first :: rest)) :
    (unreceived first rest).card + (first + rest.length) = rest.getLastD first := by
  have hsub := received.subset_Icc
  have hnodup : (first :: rest).Nodup := received.pairwise.imp fun h => Nat.ne_of_lt h
  have hcard : (first :: rest).toFinset.card = rest.length + 1 :=
    List.toFinset_card_of_nodup hnodup
  have hle := Finset.card_le_card hsub
  have hlast := Finset.mem_Icc.mp (hsub (List.mem_toFinset.mpr List.mem_cons_self))
  rw [unreceived, Finset.card_sdiff_of_subset hsub, hcard, Nat.card_Icc]
  rw [hcard, Nat.card_Icc] at hle
  omega

/-! ## Exactness -/

/-- A validator that is new or was reset, at any time before: its state is the initial one. -/
def Restarted (v : Validator) : Prop := v = new ∨ ∃ w : Validator, v = w.reset

/-- A restarted validator waits for the first count and has counted nothing. -/
theorem Restarted.initial {v : Validator} (hv : v.Restarted) :
    v.state = .initial ∧ v.missedCount = 0 ∧ v.capturedCount = 0 := by
  rcases hv with rfl | ⟨w, rfl⟩
  · exact ⟨rfl, rfl, rfl⟩
  · exact ⟨rfl, rfl, rfl⟩

/-- **The counters after a run.** All received counts are captured, and the lost samples are those
counted and the shortfalls. -/
theorem update_statistics {m : Nat} (hm : m = 3999 ∨ m = 12799) {first : Nat} {rest : List Nat}
    (received : Received m (first :: rest)) {v : Validator} (hv : v.Restarted)
    {parts : List (List ASDU)} (nonempty : ∀ part ∈ parts, part ≠ [])
    (fed : parts.flatten.map ASDU.smpCnt = (first :: rest).map (smpCntAt m)) :
    ∃ w, forM parts update (v.setStrategy .statistics) = .ok () w ∧
      w.capturedCount = UInt64.ofNat (rest.length + 1) ∧
      w.missedCount.toNat + shortfalls m first rest ≡ (unreceived first rest).card
        [MOD 2 ^ 32] := by
  obtain ⟨hstate, hmissed₀, hcaptured₀⟩ := hv.initial
  -- the first count is accepted as it is, the rest is a feed behind it
  have hfirst := validate_initial (v := v.setStrategy .statistics) (smpCntAt m first) hstate
  have hcorrect : State.correct ≠ State.initial := by decide
  obtain ⟨w, hrun, hcaptured, hmissed⟩ := feed_statistics hm received
    (v := (v.setStrategy .statistics).captured (smpCntAt m first) .correct 0) hcorrect rfl rfl
  refine ⟨w, ?_, ?_, ?_⟩
  · rw [forM_update nonempty, fed, List.map_cons, List.forM_cons, bind_of_ok hfirst, hrun]
  · rw [hcaptured, captured_capturedCount rfl, setStrategy, hcaptured₀, Nat.add_comm,
      UInt64.ofNat_add]
    rfl
  · have hcard := card_unreceived_add received
    rw [captured_missedCount, setStrategy, hmissed₀] at hmissed
    have hzero : (0 + 0 : UInt32).toNat = 0 := rfl
    rw [hzero] at hmissed
    unfold Nat.ModEq at hmissed ⊢
    omega

/-- **The statistics are exact** precisely when the shortfalls of the gaps add up to a multiple of
the range of `missedCount`. -/
theorem statistics_exact_iff {m : Nat} (hm : m = 3999 ∨ m = 12799) {first : Nat} {rest : List Nat}
    (received : Received m (first :: rest)) {v : Validator} (hv : v.Restarted)
    {parts : List (List ASDU)} (nonempty : ∀ part ∈ parts, part ≠ [])
    (fed : parts.flatten.map ASDU.smpCnt = (first :: rest).map (smpCntAt m))
    (missed_fits : (unreceived first rest).card < 2 ^ 32)
    (captured_fits : rest.length + 1 < 2 ^ 64) :
    (∃ w, forM parts update (v.setStrategy .statistics) = .ok () w ∧
      w.capturedCount.toNat = rest.length + 1 ∧
      w.missedCount.toNat = (unreceived first rest).card) ↔ 2 ^ 32 ∣ shortfalls m first rest := by
  obtain ⟨w, hrun, hcaptured, hmissed⟩ := update_statistics hm received hv nonempty fed
  have hlt : w.missedCount.toNat < 2 ^ 32 := w.missedCount.toNat_lt
  unfold Nat.ModEq at hmissed
  constructor
  · -- a run has one outcome, so that the counter is known modulo `2 ^ 32` in any case
    rintro ⟨w', hrun', -, hexact⟩
    rw [hrun] at hrun'
    cases hrun'
    omega
  · intro hdvd
    refine ⟨w, hrun, ?_, by omega⟩
    rw [hcaptured, UInt64.toNat_ofNat']
    exact Nat.mod_eq_of_lt captured_fits

/-- An ASDU that carries the sample count `smpCnt`, with data units of zeros. -/
def counted (smpCnt : UInt16) : ASDU where
  smpCnt := smpCnt
  smpSynch := 0
  confRev := 1
  data := Vector.replicate unitsPerASDU ⟨0, 0, 0⟩

/-- At 80 points per period, three samples around the end of a round and one lost after them:
exact. -/
theorem statistics_exact_iff_round :
    (∃ w, forM [[counted 3998, counted 3999], [counted 0], [counted 2]] update
        (new.setStrategy .statistics) = .ok () w ∧
      w.capturedCount.toNat = 4 ∧ w.missedCount.toNat = (unreceived 3998 [3999, 4000, 4002]).card) ↔
      2 ^ 32 ∣ shortfalls 3999 3998 [3999, 4000, 4002] := by
  have nonempty : ∀ part ∈ [[counted 3998, counted 3999], [counted 0], [counted 2]], part ≠ [] := by
    decide
  have received : Received 3999 (3998 :: [3999, 4000, 4002]) := by decide
  have fed : [[counted 3998, counted 3999], [counted 0], [counted 2]].flatten.map ASDU.smpCnt =
      (3998 :: [3999, 4000, 4002]).map (smpCntAt 3999) := by decide
  exact statistics_exact_iff (.inl rfl) received (.inl rfl) nonempty fed (by decide) (by decide)

/-- At 80 points per period, the two samples around the start of a round are lost: the validator
adds `1 - 4000 + 1` to its unsigned counter. -/
theorem wrap_gap_miscounted :
    Received 3999 [3998, 4001] ∧
    [[counted 3998, counted 1]].flatten.map ASDU.smpCnt = [3998, 4001].map (smpCntAt 3999) ∧
    (unreceived 3998 [4001]).card = 2 ∧
    ∃ w, forM [[counted 3998, counted 1]] update (new.setStrategy .statistics) = .ok () w ∧
      w.capturedCount = 2 ∧ w.missedCount.toNat = 2 ^ 32 - 3998 := by
  refine ⟨by decide, by decide, by decide, ?_⟩
  exact ⟨_, rfl, by decide, by decide⟩

end Validator

end Iec

end IecCore
