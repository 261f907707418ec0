import IecCore.Bpf.Configuration

/-! # Filtering a second time

The executor keeps the source code that filtering has made, not the template. A second filtering
finds no placeholder, and the settings that it is given have no effect: no key is left in the text,
and none is made by what was put in.

* **`Settled source`** — a source code in which filtering finds nothing.
* **`filterSourceCode_settled`** — filtering leaves it as it is, for all settings.
* **`Plain`** — texts without a percent sign and on one line, which make no key.
* **`settled_generated`** — the program that is made of the template is settled.
* **`exists_filterSourceCode`** — filtering always ends. -/

namespace IecCore

namespace Bpf

open Utils CLiteral BPFExecutor

/-! ## Texts in which nothing is found -/

/-- A **settled** source code: the placeholders do not occur in it, and neither does the check that
is removed. -/
def Settled (source : Text) : Prop :=
  ∀ key ∈ [text "%IFACE_MAC", text "%SRC_MAC", text "%SV_ID", svReplacement2],
    firstOccurrence key source = none

/-- The declaration that is edited has a placeholder in it, so that it is gone with that. -/
theorem firstOccurrence_svReplacement1 {source : Text}
    (hsvId : firstOccurrence (text "%SV_ID") source = none) :
    firstOccurrence svReplacement1 source = none := by
  have hsplit : svReplacement1 = text "char cmp_str[] = \"" ++ (text "%SV_ID" ++ text "\";") := rfl
  rw [hsplit]
  exact firstOccurrence_of_piece hsvId

/-- An edit of what does not occur leaves the text as it is: `formater.replace match' replace'` is
`some formater`. -/
theorem replace_of_firstOccurrence {formater : SourceCodeFormater} {match' : Text}
    (hmatch : match' ≠ []) (hnone : firstOccurrence match' formater.sourceCode = none)
    (replace' : Text) : formater.replace match' replace' = some formater := by
  have hpass := replace_eq_substitute formater
    { key := match', value := replace', key_ne := hmatch }
  dsimp only at hpass
  rw [hpass, substitute_of_firstOccurrence hnone]

/-- **Filtering a settled source code** leaves it as it is, whatever the settings are. -/
theorem filterSourceCode_settled (readFile : Text → Text) {executor : BPFExecutor}
    (h : Settled executor.bpfProg.sourceCode) (ifaceName srcMac svID : Text) :
    filterSourceCode readFile executor ifaceName srcMac svID = some executor := by
  obtain ⟨ifaceMac, hiface, -⟩ := exists_macByIfaceName readFile ifaceName
  simp only [Settled, List.forall_mem_cons] at h
  obtain ⟨hifaceMac, hsrcMac, hsvId, hcheck, -⟩ := h
  have hdeclaration := firstOccurrence_svReplacement1 hsvId
  have hremove : executor.bpfProg.remove svReplacement2 = some executor.bpfProg :=
    replace_of_firstOccurrence (by decide) hcheck []
  rw [filterSourceCode, hiface]
  simp only [Option.bind_eq_bind, Option.bind_some,
    replace_of_firstOccurrence ifaceMacKey_ne hifaceMac,
    replace_of_firstOccurrence srcMacKey_ne hsrcMac, replace_of_firstOccurrence svIdKey_ne hsvId,
    replace_of_firstOccurrence (by decide) hdeclaration, hremove]
  exact ite_self _

/-! ## The generated program -/

/-- A **plain** text: no placeholder and no line break is in it. -/
structure Plain (w : Text) : Prop where
  /-- It has no mark. -/
  unmarked : percent ∉ w
  /-- It is one line. -/
  oneLine : newline ∉ w

/-- The text of the template that is between its values, with the rest of it. -/
def fixedTexts : List Text := [svIdCmpHead, [quote] ++ svIdCmpBody ++ filterHead, filterMiddle]

/-- The values alternate with the texts of the template, which is how keys are looked for. -/
theorem generated_eq (ifaceMac srcMac svID : Text) :
    generated ifaceMac srcMac svID
      = svIdCmpHead ++ (svID ++ ([quote] ++ svIdCmpBody ++ filterHead ++
          (ifaceMac ++ (filterMiddle ++ (srcMac ++ filterTail))))) := by
  simp only [generated, program, filterWith, List.append_assoc, List.cons_append, List.nil_append]

/-- The check that is removed is not in the template, and no text of the template ends as it
starts. -/
theorem svReplacement2_fixedTexts :
    firstOccurrence svReplacement2 filterTail = none ∧
      ∀ front ∈ fixedTexts, firstOccurrence svReplacement2 front = none ∧
        ∀ s ∈ front.tails, s ≠ [] → ¬s <+: svReplacement2 := by decide +kernel

/-- **The generated program is settled** when its values are plain texts. -/
theorem settled_generated {ifaceMac srcMac svID : Text} (hifaceMac : Plain ifaceMac)
    (hsrcMac : Plain srcMac) (hsvID : Plain svID) : Settled (generated ifaceMac srcMac svID) := by
  have hplaceholder (key : Text)
      (hkey : key ∈ [text "%IFACE_MAC", text "%SRC_MAC", text "%SV_ID"]) :
      firstOccurrence key (generated ifaceMac srcMac svID) = none := by
    have hmark : ∃ name, key = percent :: name := by
      simp only [List.mem_cons, List.not_mem_nil, or_false] at hkey
      obtain rfl | rfl | rfl := hkey
      · exact ⟨text "IFACE_MAC", rfl⟩
      · exact ⟨text "SRC_MAC", rfl⟩
      · exact ⟨text "SV_ID", rfl⟩
    have htail := firstOccurrence_filterTail key hkey
    obtain ⟨name, rfl⟩ := hmark
    have hquote : percent ∉ [quote] := by decide
    -- every text of the program but the last one has no mark
    rw [generated_eq]
    simp only [List.append_assoc]
    refine firstOccurrence_append_of_not_mem percent_not_mem_svIdCmpHead ?_
    refine firstOccurrence_append_of_not_mem hsvID.unmarked ?_
    refine firstOccurrence_append_of_not_mem hquote ?_
    refine firstOccurrence_append_of_not_mem percent_not_mem_svIdCmpBody ?_
    refine firstOccurrence_append_of_not_mem percent_not_mem_filterHead ?_
    refine firstOccurrence_append_of_not_mem hifaceMac.unmarked ?_
    refine firstOccurrence_append_of_not_mem percent_not_mem_filterMiddle ?_
    exact firstOccurrence_append_of_not_mem hsrcMac.unmarked htail
  have hcheck : firstOccurrence svReplacement2 (generated ifaceMac srcMac svID) = none := by
    obtain ⟨htail, hfixed⟩ := svReplacement2_fixedTexts
    have hbreak : svReplacement2 = newline :: svReplacement2.tail := rfl
    have hvalue {w back : Text} (hw : Plain w) (hback : firstOccurrence svReplacement2 back = none) :
        firstOccurrence svReplacement2 (w ++ back) = none := by
      rw [hbreak] at hback ⊢
      exact firstOccurrence_append_of_not_mem hw.oneLine hback
    have htext {front back : Text} (hfront : front ∈ fixedTexts)
        (hback : firstOccurrence svReplacement2 back = none) :
        firstOccurrence svReplacement2 (front ++ back) = none :=
      firstOccurrence_append (hfixed front hfront).1
        (fun s hs => (hfixed front hfront).2 s ((List.mem_tails ..).mpr hs)) hback
    rw [generated_eq]
    refine htext (by simp [fixedTexts]) (hvalue hsvID (htext (by simp [fixedTexts]) ?_))
    exact hvalue hifaceMac (htext (by simp [fixedTexts]) (hvalue hsrcMac htail))
  refine List.forall_mem_cons.mpr ⟨hplaceholder _ (by simp), ?_⟩
  refine List.forall_mem_cons.mpr ⟨hplaceholder _ (by simp), ?_⟩
  exact List.forall_mem_cons.mpr ⟨hplaceholder _ (by simp), List.forall_mem_singleton.mpr hcheck⟩

/-! ## Filtering ends -/

/-- An edit ends, when it looks for something: for every `match' ≠ []` there is a next formater. -/
theorem exists_replace (formater : SourceCodeFormater) {match' : Text} (hmatch : match' ≠ [])
    (replace' : Text) : ∃ formater', formater.replace match' replace' = some formater' :=
  ⟨_, replace_eq_substitute formater { key := match', value := replace', key_ne := hmatch }⟩

/-- **Filtering ends**, for all settings and every source code: no text that is looked for is
empty. -/
theorem exists_filterSourceCode (readFile : Text → Text) (executor : BPFExecutor)
    (ifaceName srcMac svID : Text) :
    ∃ executor', filterSourceCode readFile executor ifaceName srcMac svID = some executor' := by
  obtain ⟨ifaceMac, hiface, -⟩ := exists_macByIfaceName readFile ifaceName
  obtain ⟨first, hfirst⟩ := exists_replace executor.bpfProg ifaceMacKey_ne ifaceMac
  obtain ⟨second, hsecond⟩ := exists_replace first srcMacKey_ne srcMac
  rw [filterSourceCode, hiface]
  simp only [Option.bind_eq_bind, Option.bind_some, hfirst, hsecond]
  -- without an svID two edits are made, with one the pass for it
  by_cases hsvID : svID = []
  · obtain ⟨third, hthird⟩ := exists_replace second (show svReplacement1 ≠ [] by decide)
      (text "char const *cmp_str = str;")
    obtain ⟨fourth, hfourth⟩ : ∃ fourth, third.remove svReplacement2 = some fourth :=
      exists_replace third (by decide) []
    rw [if_neg (not_not.mpr hsvID), hthird, Option.bind_some, hfourth]
    exact ⟨⟨fourth⟩, rfl⟩
  · obtain ⟨third, hthird⟩ := exists_replace second svIdKey_ne svID
    rw [if_pos hsvID, hthird]
    exact ⟨⟨third⟩, rfl⟩

end Bpf

end IecCore
