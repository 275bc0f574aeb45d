import FeatureFilter.Proofs.Token.Spaced
import FeatureFilter.Proofs.Token.Places

/-!
# Written strings and names as tokens

A string and a property path are written so that the lexer takes the whole text as one token, and
takes the same token when a blank, a comma or a closing parenthesis stands behind it (`Delimited`).
So no string ends early, none reaches into what follows, and two of them are never written alike
(`delimited_texts`). A name is written without quotes just if the lexer reads it as a single word
without points (`isPlainName_iff_isIdentifier`, `isIdentifier_iff_tokenize`).
-/

namespace FeatureFilter

def Token.spanning (kind : TokenKind) (text : String) : Token :=
  ⟨kind, text, .between .start (.behind text.toList)⟩

/-- The path of the property that a word or a quoted name calls. -/
def Token.path? (t : Token) : Option String :=
  match t.kind with
  | .identifier word => some (PropertyName.ofWord word t.span).path
  | .quotedIdentifier name => some (PropertyName.ofQuoted name t.span).path
  | _ => none

/-- The kinds of tokens that a character behind a written text stands for: a blank for none. -/
def delimiterKinds (c : Char) : List TokenKind :=
  if c = ',' then [.mark .comma] else if c = ')' then [.mark .rightParen] else []

/-- The lexer takes the text as one token, by itself and in front of a delimiter. -/
structure Delimited (t : Token) (text : String) : Prop where
  alone : tokenize text = .ok [t, .finishAt (.behind text.toList)]
  /-- Whatever stands behind the delimiter. -/
  first : ∀ c ∈ [' ', ',', ')'], ∀ rest : String,
    (scan (text ++ String.singleton c ++ rest)).tokens.head? = some t
  /-- The tokens of a text behind the delimiter are those that it has by itself. -/
  followed : ∀ c ∈ [' ', ',', ')'], ∀ (rest : String) (tokens : List Token),
    tokenize rest = .ok tokens → ∃ later,
      tokenize (text ++ String.singleton c ++ rest) = .ok (t :: later) ∧
        later.map Token.kind = delimiterKinds c ++ tokens.map Token.kind

/-! ## Firm lexemes -/

section Delimited

variable {kind : TokenKind} {text rest : String} {c : Char}

theorem after_start (w : List Char) : Position.start.after w = .behind w := by
  rw [← List.nil_append w, Position.behind_append]
  rfl

theorem stops_delimiter (hc : c ∈ [' ', ',', ')']) (cs : List Char) : Stops (c :: cs) := by
  rw [stops_cons]
  simp only [List.mem_cons, List.not_mem_nil, or_false] at hc
  rcases hc with rfl | rfl | rfl <;> decide

theorem toList_delimited (text rest : String) (c : Char) :
    (text ++ String.singleton c ++ rest).toList = text.toList ++ c :: rest.toList := by
  simp

/-- A delimiter and a text behind it. -/
theorem Scans.delimiter {p : Position} {tokens : List Token} (hc : c ∈ [' ', ',', ')'])
    (h : tokenize rest = .ok tokens) :
    ∃ ts q, Scans p (c :: rest.toList) ts q ∧
      ts.map Token.kind ++ [.finish] = delimiterKinds c ++ tokens.map Token.kind := by
  obtain ⟨ts, q, rfl, hts⟩ := tokenize_eq_ok.1 h
  -- behind the delimiter the text has the same tokens, further on
  have hmoved (p' : Position) :
      ∃ ts' q', Scans p' rest.toList ts' q' ∧ ts'.map Token.kind = ts.map Token.kind := by
    have hoffset : p'.offset = Position.start.offset + p'.offset := by simp [Position.start]
    obtain ⟨ts', q', hts', hm⟩ := hts.moved hoffset
    exact ⟨ts', q', hts', List.forall₂_eq_eq_eq ▸ List.forall₂_map_left_iff.2
      (List.forall₂_map_right_iff.2 (hm.imp fun _ _ h => h.kind))⟩
  obtain ⟨ts', q', hts', hkinds⟩ := hmoved (p.advance c)
  simp only [List.mem_cons, List.not_mem_nil, or_false] at hc
  rcases hc with rfl | rfl | rfl
  · exact ⟨ts', q', .blank (by decide) hts', by simp [hkinds, delimiterKinds, Token.finishAt]⟩
  · exact ⟨_, q', .lexeme (solid_comma _) hts', by simp [hkinds, delimiterKinds, Token.finishAt]⟩
  · exact ⟨_, q', .lexeme (solid_rightParen _) hts',
      by simp [hkinds, delimiterKinds, Token.finishAt]⟩

theorem Delimited.of_firm (h : Firm kind text.toList) : Delimited (.spanning kind text) text := by
  have htoken :
      (⟨kind, String.ofList text.toList, .between .start (Position.start.after text.toList)⟩ :
      Token) = .spanning kind text := by
    rw [String.ofList_toList, after_start]
    rfl
  refine ⟨tokenize_eq_ok.2 ⟨[.spanning kind text], .behind text.toList, rfl, ?_⟩,
    fun c hc rest => ?_, fun c hc rest tokens hrest => ?_⟩
  · have hw := h [] stops_nil
    have hs : Scans .start (text.toList ++ []) _ _ := .lexeme hw .nil
    rwa [htoken, List.append_nil, after_start] at hs
  · rw [scan, toList_delimited, scanFrom_lexeme (h _ (stops_delimiter hc _)), htoken]
    rfl
  · obtain ⟨ts, q, hts, hkinds⟩ :=
      Scans.delimiter (p := Position.start.after text.toList) hc hrest
    have hs := Scans.lexeme (h _ (stops_delimiter hc _)) hts
    rw [htoken] at hs
    exact ⟨ts ++ [.finishAt q], tokenize_eq_ok.2 ⟨_, q, rfl, by rwa [toList_delimited]⟩,
      by simpa [Token.finishAt] using hkinds⟩

/-- A text has its token only. -/
theorem Delimited.token_eq {t u : Token} (h : Delimited t text) (h' : Delimited u text) :
    t = u := by
  have := h.alone.symm.trans h'.alone
  simp only [Except.ok.injEq, List.cons.injEq] at this
  exact this.1

end Delimited

/-! ## Strings and paths -/

theorem delimited_stringText (s : String) :
    Delimited (.spanning (.string s) (stringText s)) (stringText s) := by
  refine .of_firm ?_
  rw [stringText, Quoted.writeText, String.toList_ofList]
  exact firm_string s

/-- A path is written as a word or as a quoted name, and either calls it. -/
theorem delimited_propertyText (path : String) :
    ∃ kind, (Token.spanning kind (propertyText path)).path? = some path ∧
      Delimited (.spanning kind (propertyText path)) (propertyText path) := by
  unfold propertyText
  split
  · rename_i hplain
    refine ⟨.identifier (String.ofList (pathWord path)), ?_, .of_firm ?_⟩
    · exact congrArg some (path_ofWord hplain _)
    · rw [String.toList_ofList]
      exact firm_word (isIdentifier_pathWord hplain)
  · refine ⟨.quotedIdentifier path, congrArg some (path_ofQuoted path _), .of_firm ?_⟩
    rw [Quoted.writeText, String.toList_ofList]
    exact firm_quoted path

theorem stringText_injective : Function.Injective stringText := by
  intro s s' h
  have hs := delimited_stringText s
  rw [h] at hs
  have htoken := hs.token_eq (delimited_stringText s')
  exact TokenKind.string.inj (congrArg Token.kind htoken)

theorem propertyText_injective : Function.Injective propertyText := by
  intro path path' h
  obtain ⟨kind, hpath, hdelimited⟩ := delimited_propertyText path
  obtain ⟨kind', hpath', hdelimited'⟩ := delimited_propertyText path'
  rw [h] at hpath hdelimited
  rw [hdelimited.token_eq hdelimited', hpath'] at hpath
  exact (Option.some.inj hpath).symm

/-! ## Plain names -/

section Plain

variable {w : List Char}

/-- The characters of a word without points stand inside it. -/
theorem continuesWord_of_splitWords (h : (splitWords w).2 = []) (hp : '.' ∉ w) :
    ∀ c ∈ w, continuesWord c = true := by
  fun_induction splitWords w with
  | case1 => simp
  | case2 c cs hc word rest hs ih =>
    rw [hs] at ih
    exact List.forall_mem_cons.2 ⟨hc, ih h fun hmem => hp (List.mem_cons_of_mem _ hmem)⟩
  | case3 c hc d ds hd =>
    simp only [Bool.and_eq_true, decide_eq_true_eq] at hd
    exact absurd (hd.1 ▸ List.mem_cons_self) hp
  | case4 => cases h
  | case5 => cases h

/-- A plain name is an identifier without points, when its letters are known. -/
theorem isPlainName_iff_isIdentifier (hw : ∀ c ∈ w, isWordLetter c = isLetter c) :
    isPlainName w = true ↔ isIdentifier w = true ∧ '.' ∉ w := by
  constructor
  · intro h
    have hword : isIdentifier (joinedChars '.' [w]) = true :=
      isIdentifier_joinedChars (by simp) (by simpa using h)
    exact ⟨hword, point_notMem_of_isPlainName h⟩
  · rintro ⟨h, hp⟩
    match w with
    | c :: cs =>
      simp only [isIdentifier, Bool.and_eq_true, List.isEmpty_iff] at h
      obtain ⟨⟨hc, hcs⟩, hkeyword⟩ := h
      have hrest := continuesWord_of_splitWords hcs fun hmem => hp (List.mem_cons_of_mem _ hmem)
      have hstarts {d : Char} (hd : d ∈ c :: cs) : startsPlainName d = startsWord d := by
        rw [startsPlainName, startsWord, hw d hd]
      simp only [isPlainName, Bool.and_eq_true, List.all_eq_true]
      refine ⟨⟨(hstarts List.mem_cons_self).trans hc, fun d hd => ?_⟩, hkeyword⟩
      rw [continuesPlainName, hstarts (List.mem_cons_of_mem _ hd)]
      exact hrest d hd

theorem toList_of_splitLexeme {cs v rest : List Char} {s : String}
    (h : splitLexeme cs = .ok (.identifier s, v, rest)) : s.toList = v := by
  generalize hk : TokenKind.identifier s = kind at h
  cases LexemeAt.of_splitLexeme h with
  | word =>
    unfold wordKind at hk
    split at hk
    · split at hk <;> cases hk
      exact String.toList_ofList
    · cases hk
      exact String.toList_ofList
  | _ => cases hk

/-- A word is no longer than the text that it is read from. -/
theorem Scans.length_le {p q : Position} {cs : List Char} {ts : List Token} (h : Scans p cs ts q) :
    ∀ t ∈ ts, ∀ s, t.kind = .identifier s → s.toList.length ≤ cs.length := by
  induction h with
  | nil => simp
  | blank _ _ ih =>
    intro t ht s hs
    exact Nat.le_succ_of_le (ih t ht s hs)
  | @lexeme p q kind v cs ts hv _ ih =>
    refine List.forall_mem_cons.2 ⟨fun s hs => ?_, fun t ht s hs => ?_⟩
    · obtain rfl : kind = .identifier s := hs
      rw [toList_of_splitLexeme hv, List.length_append]
      exact Nat.le_add_right _ _
    · rw [List.length_append]
      exact Nat.le_add_left_of_le (ih t ht s hs)

/-- A text that is a single word as a whole is an identifier. -/
theorem isIdentifier_of_scans {p q : Position} {w : List Char} {ts : List Token}
    (h : Scans p w ts q) (hkinds : ts.map Token.kind = [.identifier (String.ofList w)]) :
    isIdentifier w = true := by
  have hword {t : Token} (ht : t ∈ ts) : t.kind = .identifier (String.ofList w) := by
    have hmem := List.mem_map_of_mem (f := Token.kind) ht
    rw [hkinds] at hmem
    exact List.mem_singleton.1 hmem
  cases h with
  | nil => cases hkinds
  | @blank _ _ c cs _ _ h =>
    -- the word would be longer than what stands behind the blank
    obtain ⟨t, ht⟩ : ∃ t, t ∈ ts := by
      cases ts with
      | nil => cases hkinds
      | cons t ts => exact ⟨t, List.mem_cons_self⟩
    have hlen := h.length_le t ht _ (hword ht)
    simp at hlen
  | @lexeme _ _ kind v cs ts hv _ =>
    obtain rfl : kind = .identifier (String.ofList (v ++ cs)) := hword List.mem_cons_self
    obtain rfl : cs = [] := by
      have hlen := congrArg List.length (toList_of_splitLexeme hv)
      simpa using hlen
    have hid := isIdentifier_of_splitLexeme hv
    simpa using hid

/-- A text is an identifier just if it is split into one word. -/
theorem isIdentifier_iff_tokenize (w : String) :
    isIdentifier w.toList = true ↔
      (tokenize w).map (List.map Token.kind) = .ok [.identifier w, .finish] := by
  constructor
  · intro h
    have hfirm := firm_word h
    rw [String.ofList_toList] at hfirm
    rw [(Delimited.of_firm hfirm).alone]
    rfl
  · intro h
    cases hw : tokenize w with
    | error e =>
      rw [hw] at h
      cases h
    | ok tokens =>
      rw [hw] at h
      obtain ⟨ts, q, rfl, hts⟩ := tokenize_eq_ok.1 hw
      have hkinds : ts.map Token.kind = [.identifier w] := by
        have := Except.ok.inj h
        rw [List.map_append, show [TokenKind.identifier w, .finish] = [.identifier w] ++ [.finish]
          from rfl] at this
        exact (List.append_inj' this rfl).1
      exact isIdentifier_of_scans hts (by rw [hkinds, String.ofList_toList])

end Plain

/-- Strings and paths are written injectively, as texts that delimit themselves: the lexer takes
each as one token, a string of that content or a name of that path, by itself and in front of a
blank, a comma or a closing parenthesis and anything else. And a name is plain just if it is a
single word without points to the lexer, as long as its letters are no later ones. -/
theorem delimited_texts :
    (∀ s, Delimited (.spanning (.string s) (stringText s)) (stringText s)) ∧
    (∀ path, ∃ kind, (Token.spanning kind (propertyText path)).path? = some path ∧
      Delimited (.spanning kind (propertyText path)) (propertyText path)) ∧
    Function.Injective stringText ∧ Function.Injective propertyText ∧
    ∀ w : String, (∀ c ∈ w.toList, isWordLetter c = isLetter c) →
      (isPlainName w.toList = true ↔
        (tokenize w).map (List.map Token.kind) = .ok [.identifier w, .finish] ∧
          '.' ∉ w.toList) := by
  refine ⟨delimited_stringText, delimited_propertyText, stringText_injective,
    propertyText_injective, fun w hw => ?_⟩
  rw [isPlainName_iff_isIdentifier hw, isIdentifier_iff_tokenize]

/-- The one name is plain, and so it is a single word to the lexer; the other is neither. -/
theorem delimited_texts_names :
    (∀ c ∈ "größe".toList, isWordLetter c = isLetter c) ∧
    (∀ c ∈ "größe-2".toList, isWordLetter c = isLetter c) ∧
    (tokenize "größe").map (List.map Token.kind) = .ok [.identifier "größe", .finish] ∧
    (tokenize "größe-2").map (List.map Token.kind) ≠ .ok [.identifier "größe-2", .finish] := by
  have hletters {w : String} (h : w.toList.all (fun c => isWordLetter c == isLetter c) = true) :
      ∀ c ∈ w.toList, isWordLetter c = isLetter c :=
    fun c hc => eq_of_beq (List.all_eq_true.1 h c hc)
  have hword : ∀ c ∈ "größe".toList, isWordLetter c = isLetter c := hletters (by decide +kernel)
  have hwords : ∀ c ∈ "größe-2".toList, isWordLetter c = isLetter c := hletters (by decide +kernel)
  have hplain : isPlainName "größe".toList = true := by decide +kernel
  have hquoted : ¬ isPlainName "größe-2".toList = true := by decide +kernel
  refine ⟨hword, hwords, ((delimited_texts.2.2.2.2 "größe" hword).1 hplain).1, fun h => ?_⟩
  exact hquoted ((delimited_texts.2.2.2.2 "größe-2" hwords).2 ⟨h, by decide +kernel⟩)

end FeatureFilter
