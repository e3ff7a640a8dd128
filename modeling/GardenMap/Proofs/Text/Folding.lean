import GardenMap.Proofs.Text.Words
import GardenMap.Text.CaseFold

/-!
# Case folding and keywords

Case folding does not see the case of ASCII letters. Beyond ASCII only the long s and the kelvin
sign fold to an ASCII letter, so a text spells a lower-case keyword exactly when the two are the
same but for case (`sameFolded_keyword`).

In ASCII lower case a word is a keyword exactly when it spells it and has no character that only
case folding takes to one of its letters (`lower_eq_iff`).
-/

namespace GardenMap.Text

/-! ## The case of ASCII letters -/

def capitals : List Char := "ABCDEFGHIJKLMNOPQRSTUVWXYZ".toList

theorem toLower_eq_self {c : Char} (h : c ∉ capitals) : c.toLower = c := by
  have hall : ∀ n < 91, 65 ≤ n → Char.ofNat n ∈ capitals := by decide
  unfold Char.toLower
  split
  · next hc =>
    have hlow : 65 ≤ c.toNat := UInt32.le_iff_toNat_le.1 hc.1
    have hhigh : c.toNat ≤ 90 := UInt32.le_iff_toNat_le.1 hc.2
    have hmem := hall c.toNat (Nat.lt_succ_of_le hhigh) hlow
    rw [Char.ofNat_toNat] at hmem
    exact absurd hmem h
  · rfl

theorem eq_underscore_of_toLower {c : Char} (h : c.toLower = '_') : c = '_' := by
  by_cases hc : c ∈ capitals
  · have hall : capitals.all (·.toLower != '_') = true := by decide
    exact absurd h (bne_iff_ne.1 (List.all_eq_true.1 hall c hc))
  · rwa [toLower_eq_self hc] at h

theorem foldChar_toLower (c : Char) : foldChar c.toLower = foldChar c := by
  by_cases hc : c ∈ capitals
  · have hall : capitals.all (fun c => foldChar c.toLower == foldChar c) = true := by decide
    exact beq_iff_eq.1 (List.all_eq_true.1 hall c hc)
  · rw [toLower_eq_self hc]

theorem sameFolded_of_lower {s t : List Char} (h : lower s = lower t) : sameFolded s t = true := by
  have hfold : ∀ u : List Char, u.map foldChar = (lower u).map foldChar := fun u => by
    simp [lower, foldChar_toLower]
  unfold sameFolded
  rw [hfold s, hfold t, h, beq_self_eq_true]

/-! ## Characters beyond ASCII -/

theorem foldDistance_ge {n : Nat} (hn : 0x80 ≤ n) : 0x80 ≤ n + foldDistance n := by
  have hruns : foldRuns.all (fun run => 0x80 ≤ (run.1 : Int) + run.2.2.2) = true := by
    decide +kernel
  unfold foldDistance
  split
  · next first last step distance hfind =>
    have hfirst : first ≤ n := by
      have h := List.find?_some hfind
      simp only [Bool.and_eq_true, decide_eq_true_eq] at h
      exact h.1.1
    have hrun := List.all_eq_true.1 hruns _ (List.mem_of_find?_eq_some hfind)
    simp only [decide_eq_true_eq] at hrun
    omega
  · omega

theorem ofNat_ne {n : Nat} {k : Char} (hn : 0x80 ≤ n) (hpos : 0 < k.toNat) (hk : k.toNat < 0x80) :
    Char.ofNat n ≠ k := by
  rintro rfl
  by_cases hvalid : n.isValidChar
  · have hcode : (Char.ofNat n).toNat = n := congrArg Char.toNat (dif_pos hvalid)
    omega
  · have hcode : (Char.ofNat n).toNat = 0 := congrArg Char.toNat (dif_neg hvalid)
    omega

def smalls : List Char := "abcdefghijklmnopqrstuvwxyz".toList

/-- Whether a word is in lower-case ASCII letters. -/
def isSmall (keyword : String) : Bool := keyword.toList.all smalls.contains

theorem mem_smalls {keyword : String} (hk : isSmall keyword = true) {k : Char}
    (hmem : k ∈ keyword.toList) : k ∈ smalls :=
  List.contains_iff_mem.1 (List.all_eq_true.1 hk k hmem)

theorem foldLetter_ascii {c : Char} (hc : c.toNat < 0x80) : (foldLetter c).toNat < 0x80 := by
  have hall : ∀ n < 0x80, (foldLetter (Char.ofNat n)).toNat < 0x80 := by decide
  have h := hall c.toNat hc
  rwa [Char.ofNat_toNat] at h

theorem foldChar_eq_iff {c k : Char} (hk : k ∈ smalls) : foldChar c = k ↔ foldLetter c = k := by
  have hrange : smalls.all (fun k => 0 < k.toNat && k.toNat < 0x80) = true := by decide
  have hsmall := List.all_eq_true.1 hrange k hk
  simp only [Bool.and_eq_true, decide_eq_true_eq] at hsmall
  by_cases hfold : (foldLetter c).toNat < 0x80
  · rw [foldChar, if_pos hfold]
  · have hc : 0x80 ≤ c.toNat := Nat.not_lt.1 fun h => hfold (foldLetter_ascii h)
    have hne : foldChar c ≠ k := by
      rw [foldChar, if_neg hfold]
      have hge := foldDistance_ge hc
      exact ofNat_ne (by omega) hsmall.1 hsmall.2
    refine iff_of_false hne ?_
    rintro rfl
    exact hfold hsmall.2

/-! ## Keywords -/

theorem foldChar_small {k : Char} (hk : k ∈ smalls) : foldChar k = k := by
  have hall : smalls.all (fun k => foldChar k == k) = true := by decide
  exact beq_iff_eq.1 (List.all_eq_true.1 hall k hk)

theorem map_eq_iff_of_forall {f g : Char → Char} {keyword : List Char}
    (h : ∀ k ∈ keyword, ∀ c, f c = k ↔ g c = k) (w : List Char) :
    w.map f = keyword ↔ w.map g = keyword := by
  induction w generalizing keyword with
  | nil => simp
  | cons c w ih =>
    cases keyword with
    | nil => simp
    | cons k keyword =>
      simp only [List.map_cons, List.cons.injEq]
      rw [h k (by simp) c, ih fun k hk => h k (by simp [hk])]

/-- To spell a lower-case keyword is to be the same text but for case. -/
theorem sameFolded_keyword {keyword : String} (hk : isSmall keyword = true)
    (w : List Char) : sameFolded w keyword.toList = spells keyword w := by
  have hkeyword : keyword.toList.map foldChar = keyword.toList :=
    (List.map_congr_left fun _ hmem => foldChar_small (mem_smalls hk hmem)).trans (List.map_id' _)
  rw [Bool.eq_iff_iff, spells_iff, sameFolded, hkeyword, beq_iff_eq]
  exact map_eq_iff_of_forall (fun _ hmem _ => foldChar_eq_iff (mem_smalls hk hmem)) w

/-- The characters beyond ASCII that fold to an ASCII letter. -/
def disguised : List Char := ['\u017F', '\u212A']

theorem toLower_eq_iff {c k : Char} (hk : k ∈ smalls) :
    c.toLower = k ↔ foldLetter c = k ∧ c ∉ disguised := by
  by_cases hc : c ∈ disguised
  · have hall : disguised.all (fun c => !smalls.contains c.toLower) = true := by decide
    have hne : c.toLower ≠ k := by
      rintro rfl
      have h := List.all_eq_true.1 hall c hc
      rw [List.contains_iff_mem.2 hk] at h
      cases h
    exact iff_of_false hne fun h => h.2 hc
  · have hs : c ≠ '\u017F' := fun h => hc (by rw [h]; decide)
    have hkelvin : c ≠ '\u212A' := fun h => hc (by rw [h]; decide)
    rw [foldLetter, if_neg hs, if_neg hkelvin, and_iff_left hc]

theorem map_toLower_eq_iff {letters : List Char} (hk : ∀ k ∈ letters, k ∈ smalls) (w : List Char) :
    w.map Char.toLower = letters ↔ w.map foldLetter = letters ∧ ∀ c ∈ w, c ∉ disguised := by
  induction w generalizing letters with
  | nil => simp
  | cons c w ih =>
    cases letters with
    | nil => simp
    | cons k letters =>
      obtain ⟨hsmall, hrest⟩ := List.forall_mem_cons.1 hk
      simp only [List.map_cons, List.cons.injEq, List.forall_mem_cons]
      rw [toLower_eq_iff hsmall, ih hrest]
      exact and_and_and_comm

/-- In ASCII lower case a word is a keyword exactly when it spells it without disguise. -/
theorem lower_eq_iff {keyword : String} (hk : isSmall keyword = true) (w : List Char) :
    lower w = keyword.toList ↔ spells keyword w = true ∧ ∀ c ∈ w, c ∉ disguised := by
  rw [spells_iff, lower]
  exact map_toLower_eq_iff (fun _ => mem_smalls hk) w

theorem spells_of_lower {keyword : String} (hk : isSmall keyword = true) {w : List Char}
    (h : lower w = keyword.toList) : spells keyword w = true := ((lower_eq_iff hk w).1 h).1

theorem lower_of_spells {keyword : String} (hk : isSmall keyword = true)
    (hplain : 's' ∉ keyword.toList ∧ 'k' ∉ keyword.toList) {w : List Char}
    (h : spells keyword w = true) : lower w = keyword.toList := by
  refine (lower_eq_iff hk w).2 ⟨h, fun c hc hdisguised => ?_⟩
  have hfold : foldLetter c ∈ keyword.toList := by
    rw [← spells_iff.1 h]
    exact List.mem_map_of_mem hc
  simp only [disguised, List.mem_cons, List.not_mem_nil, or_false] at hdisguised
  obtain rfl | rfl := hdisguised
  · exact hplain.1 hfold
  · exact hplain.2 hfold

/-! ## Digits and letters in lower case -/

theorem isDigit_toLower (c : Char) : c.toLower.isDigit = c.isDigit := by
  by_cases hc : c ∈ capitals
  · have hall : capitals.all (fun c => c.toLower.isDigit == c.isDigit) = true := by decide
    exact beq_iff_eq.1 (List.all_eq_true.1 hall c hc)
  · rw [toLower_eq_self hc]

theorem isLetter_of_toLower {c : Char} (h : c.toLower.isLower = true) : isLetter c = true := by
  unfold isLetter foldLetter
  split
  · rfl
  split
  · rfl
  · exact h

end GardenMap.Text
