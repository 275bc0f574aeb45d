import FeatureFilter.Filter.Text
import FeatureFilter.Phrase
import FeatureFilter.Proofs.Token.Piece

/-!
# Property names

A path whose segments are all plain names is written as one word with points between the segments,
and the segments of that word are those of the path.
-/

namespace FeatureFilter

/-! ## Words without case -/

theorem toList_toLower (s : String) : s.toLower.toList = s.toList.map Char.toLower := by
  exact String.toList_map

theorem sameWord_iff {a b : String} :
    sameWord a b = true ↔ a.toList.map Char.toLower = b.toList.map Char.toLower := by
  rw [sameWord, beq_iff_eq, ← String.toList_inj, toList_toLower, toList_toLower]

/-- Reserved words hold no point. -/
theorem ofWord?_none_of_point {w : List Char} (h : '.' ∈ w) :
    Keyword.ofWord? (String.ofList w) = none := by
  rw [Keyword.ofWord?, List.find?_eq_none]
  intro k _ hk
  have hpoint : ∀ k : Keyword, '.' ∉ k.text.toList.map Char.toLower := by
    intro k
    cases k <;> decide
  rw [sameWord_iff, String.toList_ofList] at hk
  refine hpoint k ?_
  rw [hk]
  exact List.mem_map.2 ⟨'.', h, rfl⟩

/-! ## Splitting and joining -/

def joinedChars (sep : Char) : List (List Char) → List Char
  | [] => []
  | [s] => s
  | s :: t :: rest => s ++ sep :: joinedChars sep (t :: rest)

theorem splitAtChar_ne_nil (sep : Char) (cs : List Char) : splitAtChar sep cs ≠ [] := by
  cases cs with
  | nil => simp [splitAtChar]
  | cons c cs =>
    rw [splitAtChar]
    split
    · simp
    · split <;> simp

/-- Segments taken apart at one character and put together with another. -/
theorem joinedChars_splitAtChar (sep sep' : Char) (cs : List Char) :
    joinedChars sep' (splitAtChar sep cs) = cs.map fun c => if c = sep then sep' else c := by
  induction cs with
  | nil => rfl
  | cons c cs ih =>
    obtain ⟨part, parts, hp⟩ := List.exists_cons_of_ne_nil (splitAtChar_ne_nil sep cs)
    rw [splitAtChar, hp, List.map_cons, ← ih, hp]
    split
    · rfl
    · cases parts <;> rfl

theorem splitAtChar_of_notMem {sep : Char} {s : List Char} (h : sep ∉ s) :
    splitAtChar sep s = [s] := by
  induction s with
  | nil => rfl
  | cons c cs ih =>
    simp only [List.mem_cons, not_or] at h
    rw [splitAtChar, if_neg (Ne.symm h.1), ih h.2]

theorem splitAtChar_append {sep : Char} {s : List Char} (h : sep ∉ s) (rest : List Char) :
    splitAtChar sep (s ++ sep :: rest) = s :: splitAtChar sep rest := by
  induction s with
  | nil => simp [splitAtChar]
  | cons c cs ih =>
    simp only [List.mem_cons, not_or] at h
    rw [List.cons_append, splitAtChar, if_neg (Ne.symm h.1), ih h.2]

theorem splitAtChar_joinedChars {sep : Char} {ss : List (List Char)} (hne : ss ≠ [])
    (h : ∀ s ∈ ss, sep ∉ s) : splitAtChar sep (joinedChars sep ss) = ss := by
  induction ss with
  | nil => exact absurd rfl hne
  | cons s ss ih =>
    cases ss with
    | nil => exact splitAtChar_of_notMem (h s (List.mem_cons_self ..))
    | cons t ts =>
      rw [joinedChars, splitAtChar_append (h s (List.mem_cons_self ..)),
        ih (by simp) fun u hu => h u (List.mem_cons_of_mem _ hu)]

theorem toList_joined (sep : Char) (ss : List (List Char)) :
    (joined (String.singleton sep) (ss.map String.ofList)).toList = joinedChars sep ss := by
  induction ss with
  | nil => rfl
  | cons s ss ih =>
    cases ss with
    | nil => exact String.toList_ofList
    | cons t ts =>
      rw [List.map_cons] at ih ⊢
      simp [joined, joinedChars, ih]

/-- Segments taken apart at a character and put together with it again. -/
theorem joined_splitAtChar (sep : Char) (s : String) :
    joined (String.singleton sep) ((splitAtChar sep s.toList).map String.ofList) = s := by
  have hself : (fun c : Char => if c = sep then sep else c) = id := by
    funext c
    by_cases hc : c = sep <;> simp [hc]
  rw [← String.toList_inj, toList_joined, joinedChars_splitAtChar, hself, List.map_id]

/-! ## Plain names -/

theorem continuesPlainName_point : continuesPlainName '.' = false := by decide +kernel

theorem point_notMem_of_isPlainName {s : List Char} (h : isPlainName s = true) : '.' ∉ s := by
  intro hp
  match s with
  | c :: cs =>
    simp only [isPlainName, Bool.and_eq_true, List.all_eq_true] at h
    rcases List.mem_cons.1 hp with rfl | hp
    · exact absurd h.1.1 (by decide +kernel)
    · exact absurd (h.1.2 '.' hp) (by rw [continuesPlainName_point]; exact Bool.false_ne_true)

/-- Characters that stand inside a word belong to it. -/
theorem splitWords_append_of_continues {w : List Char} (h : ∀ c ∈ w, continuesWord c = true)
    (rest : List Char) : (splitWords (w ++ rest)).2 = (splitWords rest).2 := by
  induction w with
  | nil => rfl
  | cons c cs ih =>
    rw [List.cons_append, splitWords.eq_def]
    simp only [h c (List.mem_cons_self ..), if_true]
    exact ih fun d hd => h d (List.mem_cons_of_mem _ hd)

theorem isPlainName_cons {c : Char} {cs : List Char} (h : isPlainName (c :: cs) = true) :
    startsWord c = true ∧ ∀ d ∈ cs, continuesWord d = true := by
  simp only [isPlainName, Bool.and_eq_true, List.all_eq_true] at h
  exact ⟨startsWord_of_startsPlainName h.1.1,
    fun d hd => continuesWord_of_continuesPlainName (h.1.2 d hd)⟩

/-- Plain names with points between them are words that follow each other. -/
theorem splitWords_joinedChars {ss : List (List Char)} (hne : ss ≠ [])
    (h : ∀ s ∈ ss, isPlainName s = true) :
    ∃ c cs, joinedChars '.' ss = c :: cs ∧ startsWord c = true ∧ (splitWords cs).2 = [] := by
  induction ss with
  | nil => exact absurd rfl hne
  | cons s ss ih =>
    have hs := h s (List.mem_cons_self ..)
    match s with
    | c :: cs =>
      obtain ⟨hc, hcs⟩ := isPlainName_cons hs
      cases ss with
      | nil =>
        refine ⟨c, cs, rfl, hc, ?_⟩
        have := splitWords_append_of_continues hcs []
        rwa [List.append_nil] at this
      | cons t ts =>
        obtain ⟨d, ds, he, hd, hds⟩ := ih (by simp) fun u hu => h u (List.mem_cons_of_mem _ hu)
        refine ⟨c, cs ++ '.' :: d :: ds, by rw [joinedChars, he]; rfl, hc, ?_⟩
        have hp : continuesWord '.' = false := by decide +kernel
        rw [splitWords_append_of_continues hcs, splitWords.eq_def]
        simp only [hp, hd, Bool.false_eq_true, if_false, decide_true, Bool.and_self, if_true, hds]

theorem isIdentifier_joinedChars {ss : List (List Char)} (hne : ss ≠ [])
    (h : ∀ s ∈ ss, isPlainName s = true) : isIdentifier (joinedChars '.' ss) = true := by
  obtain ⟨c, cs, he, hc, hcs⟩ := splitWords_joinedChars hne h
  have hk : Keyword.ofWord? (String.ofList (c :: cs)) = none := by
    cases ss with
    | nil => exact absurd rfl hne
    | cons s ss =>
      cases ss with
      | nil =>
        have hs := h s (List.mem_cons_self ..)
        obtain rfl : s = c :: cs := he
        simp only [isPlainName, Bool.and_eq_true, Option.isNone_iff_eq_none] at hs
        exact hs.2
      | cons t ts =>
        refine ofWord?_none_of_point ?_
        rw [← he, joinedChars]
        simp
  rw [he]
  simp only [isIdentifier, hc, hcs, hk, List.isEmpty_nil, Option.isNone_none, Bool.and_self]

/-! ## Paths -/

variable {path : String}

/-- The word that a path of plain names is written as. -/
def pathWord (path : String) : List Char := path.toList.map fun c => if c = '/' then '.' else c

theorem pathWord_eq (path : String) :
    pathWord path = joinedChars '.' (splitAtChar '/' path.toList) :=
  (joinedChars_splitAtChar ..).symm

theorem isIdentifier_pathWord (h : (splitAtChar '/' path.toList).all isPlainName = true) :
    isIdentifier (pathWord path) = true := by
  rw [pathWord_eq]
  exact isIdentifier_joinedChars (splitAtChar_ne_nil _ _) (List.all_eq_true.1 h)

/-- The word stands for the path. -/
theorem path_ofWord (h : (splitAtChar '/' path.toList).all isPlainName = true) (s : Span) :
    (PropertyName.ofWord (String.ofList (pathWord path)) s).path = path := by
  have hp : ∀ w ∈ splitAtChar '/' path.toList, '.' ∉ w :=
    fun w hw => point_notMem_of_isPlainName (List.all_eq_true.1 h w hw)
  rw [PropertyName.path, PropertyName.ofWord, String.toList_ofList, pathWord_eq,
    splitAtChar_joinedChars (splitAtChar_ne_nil _ _) hp]
  exact joined_splitAtChar '/' path

theorem path_ofQuoted (path : String) (s : Span) : (PropertyName.ofQuoted path s).path = path := rfl

end FeatureFilter
