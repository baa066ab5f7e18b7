import Mathlib.Data.List.Induction
import TopDown.Proofs.Path
import TopDown.Symbols

/-!
# The canonical form of a list of symbols

The same symbols can be listed in many ways: with blanks around them, in either case, and in letters
of other scripts whose upper case is an ASCII letter. `TopDown.parseSymbols` brings them all into one
form, in which a list reads as itself. This file says which lists are accepted and what becomes of
them.

A text is cut at its commas in one way only (`TopDown.Text.CutAt`). Each token stands for a symbol,
unless there is something wrong with it (`TopDown.SymbolError.Blames`): it may be blank, it may have
characters that no symbol has, or an earlier token may stand for the same symbol. Tokens are read one
after the other, so those before the first mistake are read as if they were all
(`TopDown.parseTokens_append`), and it is the first mistake that is reported.

What all symbols have in common is `TopDown.IsCanonical`, and a canonical symbol stands for itself
(`TopDown.normalSymbol_of_isCanonical`). This rests on the case data: whatever the character, there
is no small ASCII letter in its upper case (`TopDown.Text.isLower_of_mem_upperChar`).
-/

namespace TopDown

namespace Text

/-! ### Cutting a text -/

section Cutting

variable {sep : Char}

/-- **The pieces of a text between its separators**: put together again they give the text, and there
is no separator left in any of them. -/
structure CutAt (sep : Char) (s : String) (tokens : List String) : Prop where
  /-- There is at least one piece. -/
  ne_nil : tokens ≠ []
  /-- The pieces and the separators between them make the text. -/
  joined : (String.singleton sep).intercalate tokens = s
  /-- No piece could be cut again. -/
  uncut : ∀ token ∈ tokens, sep ∉ token.toList

theorem piecesOf_eq_splitOn (sep : Char) (s : List Char) : piecesOf sep s = s.splitOn sep := by
  induction s with
  | nil => rfl
  | cons c s ih =>
    rw [piecesOf, List.splitOn_cons_eq_if_modifyHead, ih]
    by_cases hc : c = sep
    · simp [hc]
    · have hb : (c == sep) = false := by simp [hc]
      rw [if_neg hc, hb, if_neg Bool.false_ne_true]
      cases hpieces : s.splitOn sep with
      | nil => exact absurd hpieces (List.splitOn_ne_nil _ _)
      | cons p ps => rfl

theorem not_mem_of_mem_piecesOf {s p : List Char} (h : p ∈ piecesOf sep s) : sep ∉ p := by
  induction s generalizing p with
  | nil =>
    rw [piecesOf, List.mem_singleton] at h
    rw [h]
    exact List.not_mem_nil
  | cons c s ih =>
    rw [piecesOf] at h
    split at h
    · rcases List.mem_cons.mp h with rfl | h
      · exact List.not_mem_nil
      · exact ih h
    · rename_i hc
      cases hpieces : piecesOf sep s with
      | nil =>
        rw [hpieces, List.mem_singleton] at h
        rw [h, List.mem_singleton]
        exact fun he => hc he.symm
      | cons q qs =>
        rw [hpieces] at h ih
        rcases List.mem_cons.mp h with rfl | h
        · rw [List.mem_cons, not_or]
          exact ⟨fun he => hc he.symm, ih List.mem_cons_self⟩
        · exact ih (List.mem_cons_of_mem _ h)

/-- The text of some pieces is cut into these. -/
theorem CutAt.eq_pieces {s : String} {tokens : List String} (h : CutAt sep s tokens) :
    tokens = pieces sep s := by
  have hchars : [sep].intercalate (tokens.map String.toList) = s.toList := by
    rw [← h.joined, String.toList_intercalate, String.toList_singleton]
  have hsplit : s.toList.splitOn sep = tokens.map String.toList := by
    rw [← hchars]
    refine List.splitOn_intercalate sep (fun chars hmem => ?_) (by simpa using h.ne_nil)
    obtain ⟨token, htoken, rfl⟩ := List.mem_map.mp hmem
    exact h.uncut token htoken
  rw [pieces, piecesOf_eq_splitOn, hsplit]
  simp

theorem cutAt_pieces (sep : Char) (s : String) : CutAt sep s (pieces sep s) where
  ne_nil := by
    rw [pieces, piecesOf_eq_splitOn, ne_eq, List.map_eq_nil_iff]
    exact List.splitOn_ne_nil _ _
  joined := by
    rw [← String.toList_inj, String.toList_intercalate, String.toList_singleton, pieces,
      piecesOf_eq_splitOn, List.map_map]
    simp [Function.comp_def]
  uncut token htoken := by
    obtain ⟨p, hp, rfl⟩ := List.mem_map.mp htoken
    rw [String.toList_ofList]
    exact not_mem_of_mem_piecesOf hp

/-- **A text is cut in one way only.** -/
theorem cutAt_iff {s : String} {tokens : List String} :
    CutAt sep s tokens ↔ tokens = pieces sep s :=
  ⟨CutAt.eq_pieces, fun h => h ▸ cutAt_pieces sep s⟩

end Cutting

/-! ### Upper case -/

section UpperCase

theorem isLower_iff_toNat {c : Char} : c.isLower = true ↔ 97 ≤ c.toNat ∧ c.toNat ≤ 122 := by
  show (decide (c.val ≥ 97) && decide (c.val ≤ 122)) = true ↔ _
  simp [UInt32.le_iff_toNat_le]

/-- What holds of the ASCII characters one by one holds of each of them. -/
theorem forall_ascii {P : Char → Prop} (h : ∀ n < 128, P (Char.ofNat n)) {c : Char}
    (hc : c.toNat < 128) : P c := by
  rw [← Char.ofNat_toNat c]
  exact h _ hc

theorem isLower_ofNat {n : Nat} (h : n < 97 ∨ 122 < n) : (Char.ofNat n).isLower = false := by
  rw [← Bool.not_eq_true, isLower_iff_toNat]
  by_cases hn : n.isValidChar
  · have htoNat : (Char.ofNat n).toNat = n := by
      rw [Char.ofNat, dif_pos hn]
      rfl
    rw [htoNat]
    omega
  · rw [Char.ofNat, dif_neg hn]
    decide

/-- The image of a run has no small ASCII letter, if the run starts behind ASCII. -/
theorem CaseRun.isLower_map? {r : CaseRun} (hr : r ∈ upperRuns) {n m : Nat} (hn : 128 ≤ n)
    (h : r.map? n = some m) : (Char.ofNat m).isLower = false := by
  have hruns : ∀ r ∈ upperRuns, r.last < 128 ∨ (r.last : Int) + r.shift < 97 ∨
      122 < (r.first : Int) + r.shift := by decide +kernel
  rw [CaseRun.map?] at h
  split at h
  · rename_i hin
    simp only [Bool.and_eq_true, decide_eq_true_eq] at hin
    cases h
    refine isLower_ofNat ?_
    have := hruns r hr
    omega
  · cases h

theorem isLower_mapByRuns {n : Nat} (hn : 128 ≤ n) :
    (Char.ofNat (mapByRuns upperRuns n)).isLower = false := by
  rw [mapByRuns]
  cases hmap : upperRuns.findSome? fun r => r.map? n with
  | none => exact isLower_ofNat (.inr (by rw [Option.getD_none]; omega))
  | some m =>
    obtain ⟨r, hr, hm⟩ := List.exists_of_findSome?_eq_some hmap
    exact CaseRun.isLower_map? hr hn hm

/-- **No upper case has a small ASCII letter.** -/
theorem isLower_of_mem_upperChar {c d : Char} (h : d ∈ upperChar c) : d.isLower = false := by
  have hexpansions : ∀ e ∈ upperExpansions, ∀ n ∈ e.2, (Char.ofNat n).isLower = false := by
    decide +kernel
  rw [upperChar] at h
  split at h
  · rename_i hc
    rw [List.mem_singleton.mp h]
    exact forall_ascii (P := fun c => c.toUpper.isLower = false) (by decide +kernel) hc
  · rename_i hc
    split at h
    · rename_i codes hcodes
      obtain ⟨n, hn, rfl⟩ := List.mem_map.mp h
      obtain ⟨before, after, heq, -⟩ := List.lookup_eq_some_iff.mp hcodes
      exact hexpansions (c.toNat, codes) (by rw [heq]; simp) n hn
    · rw [List.mem_singleton.mp h]
      exact isLower_mapByRuns (Nat.le_of_not_lt hc)

/-- No character is lost in upper case. -/
theorem upperChar_ne_nil (c : Char) : upperChar c ≠ [] := by
  have hexpansions : ∀ e ∈ upperExpansions, e.2 ≠ [] := by decide +kernel
  rw [upperChar]
  split
  · exact List.cons_ne_nil _ _
  · split
    · rename_i codes hcodes
      obtain ⟨before, after, heq, -⟩ := List.lookup_eq_some_iff.mp hcodes
      rw [ne_eq, List.map_eq_nil_iff]
      exact hexpansions (c.toNat, codes) (by rw [heq]; simp)
    · exact List.cons_ne_nil _ _

end UpperCase

/-- Nothing is trimmed away where nothing is blank. -/
theorem trimChars_eq_self {s : List Char} (h : ∀ c ∈ s, isBlank c = false) : trimChars s = s := by
  have hdrop {l : List Char} (hl : ∀ c ∈ l, isBlank c = false) : l.dropWhile isBlank = l := by
    cases l with
    | nil => rfl
    | cons c l => exact List.dropWhile_cons_of_neg (by simp [hl c List.mem_cons_self])
  rw [trimChars, hdrop h, hdrop fun c hc => h c (List.mem_reverse.mp hc), List.reverse_reverse]

end Text

/-! ### Canonical symbols -/

/-- **The symbol is canonical**: it has ASCII digits and capital ASCII letters, and nothing else. -/
def IsCanonical (symbol : String) : Prop :=
  symbol ≠ "" ∧ ∀ c ∈ symbol.toList, c.isDigit = true ∨ c.isUpper = true

theorem isAlphanum_eq (c : Char) : c.isAlphanum = (c.isUpper || c.isLower || c.isDigit) :=
  rfl

theorem IsCanonical.isAlphanum {symbol : String} (h : IsCanonical symbol) {c : Char}
    (hc : c ∈ symbol.toList) : c.isAlphanum = true := by
  rw [isAlphanum_eq]
  rcases h.2 c hc with h | h <;> simp [h]

theorem IsCanonical.isPlainSymbol {symbol : String} (h : IsCanonical symbol) :
    isPlainSymbol symbol = true :=
  List.all_eq_true.mpr fun _ hc => h.isAlphanum hc

/-- A character of a canonical symbol is its own upper case. It is neither blank nor a comma. -/
theorem upperChar_of_canonical {c : Char} (h : c.isDigit = true ∨ c.isUpper = true) :
    Text.upperChar c = [c] ∧ Text.isBlank c = false ∧ c ≠ ',' := by
  have hascii : c.toNat < 128 := by
    rcases h with h | h
    · exact Nat.lt_of_le_of_lt (Char.isDigit_iff_toNat.mp h).2 (by decide)
    · have hle : c.toNat ≤ 90 := by
        simpa [UInt32.le_iff_toNat_le] using (of_decide_eq_true h).2
      omega
  exact Text.forall_ascii (P := fun c => c.isDigit = true ∨ c.isUpper = true →
    Text.upperChar c = [c] ∧ Text.isBlank c = false ∧ c ≠ ',') (by decide +kernel) hascii h

/-- **A canonical symbol stands for itself.** -/
theorem normalSymbol_of_isCanonical {symbol : String} (h : IsCanonical symbol) :
    normalSymbol symbol = symbol := by
  have htrim : Text.trim symbol = symbol := by
    rw [Text.trim, Text.trimChars_eq_self fun c hc => (upperChar_of_canonical (h.2 c hc)).2.1,
      String.ofList_toList]
  have hupper : symbol.toList.flatMap Text.upperChar = symbol.toList.flatMap fun c => [c] :=
    congrArg List.flatten
      (List.map_congr_left fun c hc => (upperChar_of_canonical (h.2 c hc)).1)
  rw [normalSymbol, htrim, Text.upper, hupper, List.flatMap_singleton', String.ofList_toList]

/-- A blank token stands for no text. -/
theorem normalSymbol_of_blank {token : String} (h : ∀ c ∈ token.toList, Text.isBlank c = true) :
    normalSymbol token = "" := by
  have hdrop : token.toList.dropWhile Text.isBlank = [] := List.dropWhile_eq_nil_iff.mpr h
  rw [normalSymbol, Text.trim, Text.trimChars, hdrop]
  rfl

/-- A token that is not blank stands for some text. -/
theorem normalSymbol_ne_empty {token : String} (h : Text.isAllBlank token = false) :
    normalSymbol token ≠ "" := by
  obtain ⟨c, hc, hblank⟩ := List.all_eq_false.mp h
  have hmem := Text.mem_trimChars hc (Bool.eq_false_iff.mpr hblank)
  intro hempty
  rw [normalSymbol, Text.upper, Text.trim, String.toList_ofList, String.ofList_eq_empty_iff,
    List.flatMap_eq_nil_iff] at hempty
  exact Text.upperChar_ne_nil c (hempty c hmem)

/-- **What a token stands for is canonical**, unless it is blank or has characters that no symbol
has. -/
theorem isCanonical_normalSymbol {token : String} (hblank : Text.isAllBlank token = false)
    (hplain : isPlainSymbol (normalSymbol token) = true) : IsCanonical (normalSymbol token) := by
  refine ⟨normalSymbol_ne_empty hblank, fun c hc => ?_⟩
  have hlower : c.isLower = false := by
    rw [normalSymbol, Text.upper, String.toList_ofList] at hc
    obtain ⟨d, -, hd⟩ := List.mem_flatMap.mp hc
    exact Text.isLower_of_mem_upperChar hd
  have halphanum : c.isAlphanum = true := List.all_eq_true.mp hplain c hc
  rw [isAlphanum_eq, hlower, Bool.or_false, Bool.or_eq_true] at halphanum
  exact halphanum.symm

/-! ### What is wrong with a token -/

/-- **What is wrong with a token**, after tokens that stand for the symbols `earlier`. -/
inductive SymbolError.Blames (earlier : List String) (token : String) : SymbolError → Prop
  /-- The token is blank. -/
  | blank (h : ∀ c ∈ token.toList, Text.isBlank c = true) : Blames earlier token .emptyToken
  /-- In upper case there is another character than an ASCII letter or digit. -/
  | foreign {c : Char} (hc : c ∈ (normalSymbol token).toList) (h : c.isAlphanum = false) :
      Blames earlier token (.invalid (normalSymbol token))
  /-- An earlier token stands for the same symbol. -/
  | again (h : normalSymbol token ∈ earlier) :
      Blames earlier token (.duplicate (normalSymbol token))

/-- More earlier symbols take no mistake away. -/
theorem SymbolError.Blames.mono {earlier earlier' : List String} {token : String} {e : SymbolError}
    (hsub : earlier ⊆ earlier') (h : Blames earlier token e) : Blames earlier' token e := by
  cases h with
  | blank h => exact .blank h
  | foreign hc h => exact .foreign hc h
  | again h => exact .again (hsub h)

/-- There is something wrong with the token. -/
def Offends (earlier : List String) (token : String) : Prop :=
  ∃ e, SymbolError.Blames earlier token e

/-- **There is nothing wrong with any of the tokens**, each after those before it. -/
def NoneOffends (earlier : List String) (tokens : List String) : Prop :=
  ∀ before token after, tokens = before ++ token :: after →
    ¬Offends (earlier ++ before.map normalSymbol) token

section Tokens

variable {earlier seen : List String} {token : String} {e : SymbolError}

/-- A token with nothing wrong is not blank. It stands for a canonical symbol, which is new. -/
theorem isCanonical_of_not_offends (h : ¬Offends earlier token) :
    Text.isAllBlank token = false ∧ IsCanonical (normalSymbol token) ∧
      normalSymbol token ∉ earlier := by
  have hblank : Text.isAllBlank token = false := by
    rw [← Bool.not_eq_true]
    exact fun hb => h ⟨_, .blank (List.all_eq_true.mp hb)⟩
  have hplain : isPlainSymbol (normalSymbol token) = true := by
    refine List.all_eq_true.mpr fun c hc => ?_
    by_contra hforeign
    exact h ⟨_, .foreign hc (Bool.eq_false_iff.mpr hforeign)⟩
  exact ⟨hblank, isCanonical_normalSymbol hblank hplain, fun hmem => h ⟨_, .again hmem⟩⟩

/-- There is nothing wrong with a canonical symbol that is new. -/
theorem not_offends_of_isCanonical {symbol : String} (h : IsCanonical symbol)
    (hnew : symbol ∉ earlier) : ¬Offends earlier symbol := by
  rintro ⟨e, hblames⟩
  cases hblames with
  | blank hblank =>
    exact h.1 ((normalSymbol_of_isCanonical h).symm.trans (normalSymbol_of_blank hblank))
  | foreign hc hforeign =>
    rw [normalSymbol_of_isCanonical h] at hc
    rw [h.isAlphanum hc] at hforeign
    cases hforeign
  | again hmem =>
    rw [normalSymbol_of_isCanonical h] at hmem
    exact hnew hmem

theorem noneOffends_cons {tokens : List String} :
    NoneOffends earlier (token :: tokens) ↔
      ¬Offends earlier token ∧ NoneOffends (earlier ++ [normalSymbol token]) tokens := by
  constructor
  · intro h
    refine ⟨?_, fun before t after heq => ?_⟩
    · simpa using h [] token tokens rfl
    · simpa using h (token :: before) t after (by rw [heq, List.cons_append])
  · rintro ⟨hfirst, hrest⟩ before t after heq
    cases before with
    | nil =>
      obtain ⟨rfl, -⟩ := List.cons.inj heq
      simpa using hfirst
    | cons first before =>
      obtain ⟨rfl, htail⟩ := List.cons.inj heq
      simpa using hrest before t after htail

/-- **There is a first mistake**, unless there is none. -/
theorem noneOffends_or_first (earlier tokens : List String) :
    NoneOffends earlier tokens ∨
      ∃ before token after e, tokens = before ++ token :: after ∧ NoneOffends earlier before ∧
        SymbolError.Blames (earlier ++ before.map normalSymbol) token e := by
  induction tokens generalizing earlier with
  | nil => exact .inl fun before token after heq => by simp at heq
  | cons t tokens ih =>
    by_cases ht : Offends earlier t
    · obtain ⟨e, he⟩ := ht
      exact .inr ⟨[], t, tokens, e, rfl, fun before token after heq => by simp at heq,
        by simpa using he⟩
    · rcases ih (earlier ++ [normalSymbol t]) with h | ⟨before, token, after, e, rfl, hnone, he⟩
      · exact .inl (noneOffends_cons.mpr ⟨ht, h⟩)
      · exact .inr ⟨t :: before, token, after, e, rfl, noneOffends_cons.mpr ⟨ht, hnone⟩,
          by simpa using he⟩

/-! ### Reading the tokens -/

/-- One token with nothing wrong. -/
theorem parseTokens_cons (hseen : ∀ symbol, symbol ∈ seen ↔ symbol ∈ earlier)
    (h : ¬Offends earlier token) (rest : List String) :
    parseTokens seen (token :: rest) =
      (parseTokens (normalSymbol token :: seen) rest).map (normalSymbol token :: ·) := by
  obtain ⟨hblank, hcanonical, hnew⟩ := isCanonical_of_not_offends h
  have hfresh : seen.contains (normalSymbol token) = false := by
    rw [← Bool.not_eq_true, List.contains_iff_mem, hseen]
    exact hnew
  rw [parseTokens, hblank, if_neg Bool.false_ne_true]
  dsimp only
  rw [hcanonical.isPlainSymbol, hfresh]
  rfl

/-- **The tokens before a mistake are read as if they were all.** -/
theorem parseTokens_append {before : List String}
    (hseen : ∀ symbol, symbol ∈ seen ↔ symbol ∈ earlier) (h : NoneOffends earlier before)
    (rest : List String) :
    parseTokens seen (before ++ rest) =
      (parseTokens ((before.map normalSymbol).reverse ++ seen) rest).map
        (before.map normalSymbol ++ ·) := by
  induction before generalizing earlier seen with
  | nil =>
    cases hrest : parseTokens seen rest <;> simp [hrest, Except.map]
  | cons token before ih =>
    obtain ⟨hfirst, hnone⟩ := noneOffends_cons.mp h
    have hseen' : ∀ symbol, symbol ∈ normalSymbol token :: seen ↔
        symbol ∈ earlier ++ [normalSymbol token] := by
      intro symbol
      rw [List.mem_cons, List.mem_append, List.mem_singleton, hseen, or_comm]
    rw [List.cons_append, parseTokens_cons hseen hfirst, ih hseen' hnone]
    simp only [List.map_cons, List.reverse_cons, List.append_assoc, List.singleton_append]
    cases parseTokens ((before.map normalSymbol).reverse ++ normalSymbol token :: seen) rest <;> rfl

/-- **A mistake is reported**, if the symbols before it are canonical. -/
theorem parseTokens_of_blames (hseen : ∀ symbol ∈ seen, IsCanonical symbol)
    (h : SymbolError.Blames seen token e) (rest : List String) :
    parseTokens seen (token :: rest) = .error e := by
  rw [parseTokens]
  cases h with
  | blank hblank => rw [Text.isAllBlank, List.all_eq_true.mpr hblank, if_pos rfl]
  | @foreign c hc hforeign =>
    have hblank : Text.isAllBlank token = false := by
      rw [← Bool.not_eq_true]
      intro hb
      rw [normalSymbol_of_blank (List.all_eq_true.mp hb)] at hc
      cases hc
    have hplain : isPlainSymbol (normalSymbol token) = false :=
      List.all_eq_false.mpr ⟨c, hc, Bool.eq_false_iff.mp hforeign⟩
    rw [hblank, if_neg Bool.false_ne_true]
    dsimp only
    rw [hplain]
    rfl
  | again hmem =>
    have hblank : Text.isAllBlank token = false := by
      rw [← Bool.not_eq_true]
      intro hb
      exact (hseen _ hmem).1 (normalSymbol_of_blank (List.all_eq_true.mp hb))
    rw [hblank, if_neg Bool.false_ne_true]
    dsimp only
    rw [(hseen _ hmem).isPlainSymbol, List.contains_iff_mem.mpr hmem]
    rfl

end Tokens

/-! ### Lists of symbols -/

section Lists

variable {text : String} {tokens symbols : List String} {e : SymbolError}

theorem parseSymbols_of_noneOffends (hcut : Text.CutAt ',' text tokens)
    (h : NoneOffends [] tokens) : parseSymbols text = .ok (tokens.map normalSymbol) := by
  have hseen (symbol : String) : symbol ∈ ([] : List String) ↔ symbol ∈ ([] : List String) := Iff.rfl
  have hrun := parseTokens_append hseen h []
  rw [parseSymbols, ← hcut.eq_pieces, ← List.append_nil tokens, hrun]
  simp [parseTokens, Except.map]

/-- Before the first mistake all symbols are canonical. -/
theorem isCanonical_of_noneOffends (h : NoneOffends [] tokens) :
    ∀ symbol ∈ tokens.map normalSymbol, IsCanonical symbol := by
  intro symbol hsymbol
  obtain ⟨token, htoken, rfl⟩ := List.mem_map.mp hsymbol
  obtain ⟨before, after, rfl⟩ := List.append_of_mem htoken
  exact (isCanonical_of_not_offends (h before token after rfl)).2.1

theorem nodup_of_noneOffends (h : NoneOffends [] tokens) : (tokens.map normalSymbol).Nodup := by
  induction tokens using List.reverseRecOn with
  | nil => exact List.nodup_nil
  | append_singleton before token ih =>
    have hbefore : NoneOffends [] before := fun b t after heq =>
      h b t (after ++ [token]) (by rw [heq]; simp)
    have hnew := (isCanonical_of_not_offends (h before token [] rfl)).2.2
    rw [List.nil_append] at hnew
    rw [List.map_append, List.map_singleton, List.nodup_append]
    refine ⟨ih hbefore, by simp, fun a ha b hb => ?_⟩
    rw [List.mem_singleton.mp hb]
    exact fun heq => hnew (heq ▸ ha)

/-- **The first mistake is reported.** -/
theorem parseSymbols_of_first {before after : List String} {token : String}
    (hcut : Text.CutAt ',' text (before ++ token :: after)) (hnone : NoneOffends [] before)
    (h : SymbolError.Blames (before.map normalSymbol) token e) : parseSymbols text = .error e := by
  have hstart (symbol : String) : symbol ∈ ([] : List String) ↔ symbol ∈ ([] : List String) := Iff.rfl
  have hrun := parseTokens_append hstart hnone (token :: after)
  have hsub : before.map normalSymbol ⊆ (before.map normalSymbol).reverse ++ [] := by simp
  have hseen : ∀ symbol ∈ (before.map normalSymbol).reverse ++ [], IsCanonical symbol := by
    intro symbol hsymbol
    exact isCanonical_of_noneOffends hnone symbol (by simpa using hsymbol)
  rw [parseSymbols, ← hcut.eq_pieces, hrun, parseTokens_of_blames hseen (h.mono hsub)]
  rfl

theorem map_normalSymbol (h : ∀ symbol ∈ symbols, IsCanonical symbol) :
    symbols.map normalSymbol = symbols :=
  (List.map_congr_left fun symbol hmem => normalSymbol_of_isCanonical (h symbol hmem)).trans
    (List.map_id' symbols)

/-- **A list of canonical symbols reads as itself.** -/
theorem parseSymbols_intercalate (hne : symbols ≠ []) (hnodup : symbols.Nodup)
    (h : ∀ symbol ∈ symbols, IsCanonical symbol) :
    parseSymbols (",".intercalate symbols) = .ok symbols := by
  have hcut : Text.CutAt ',' (",".intercalate symbols) symbols :=
    ⟨hne, rfl, fun symbol hmem hcomma =>
      (upperChar_of_canonical ((h symbol hmem).2 ',' hcomma)).2.2 rfl⟩
  have hnone : NoneOffends [] symbols := by
    rintro before symbol after rfl
    refine not_offends_of_isCanonical (h symbol (by simp)) ?_
    rw [List.nil_append, map_normalSymbol fun s hs => h s (List.mem_append_left _ hs)]
    exact fun hmem => (List.nodup_append.mp hnodup).2.2 symbol hmem symbol List.mem_cons_self rfl
  rw [parseSymbols_of_noneOffends hcut hnone, map_normalSymbol h]

/-- A text that is accepted has no mistake, and each of its tokens has become a symbol. -/
theorem parseSymbols_eq_ok (hcut : Text.CutAt ',' text tokens) (h : parseSymbols text = .ok symbols) :
    NoneOffends [] tokens ∧ symbols = tokens.map normalSymbol := by
  rcases noneOffends_or_first [] tokens with hnone | ⟨before, token, after, e, rfl, hnone, he⟩
  · exact ⟨hnone, Except.ok.inj (h.symm.trans (parseSymbols_of_noneOffends hcut hnone))⟩
  · cases (parseSymbols_of_first hcut hnone he).symm.trans h

/-- **The error is that of the first mistake.** -/
theorem parseSymbols_eq_error (hcut : Text.CutAt ',' text tokens) :
    parseSymbols text = .error e ↔
      ∃ before token after, tokens = before ++ token :: after ∧ NoneOffends [] before ∧
        SymbolError.Blames (before.map normalSymbol) token e := by
  constructor
  · intro h
    rcases noneOffends_or_first [] tokens with hnone | ⟨before, token, after, e', rfl, hnone, he⟩
    · cases (parseSymbols_of_noneOffends hcut hnone).symm.trans h
    · obtain rfl : e' = e := Except.error.inj ((parseSymbols_of_first hcut hnone he).symm.trans h)
      exact ⟨before, token, after, rfl, hnone, he⟩
  · rintro ⟨before, token, after, rfl, hnone, he⟩
    exact parseSymbols_of_first hcut hnone he

/-- **Lists of symbols have a canonical form.** A text is cut at its commas into tokens, in one way
only. If there is nothing wrong with any of them, the text is accepted, and then each token has become
a symbol, in the same order. There is at least one symbol, all are canonical, no two are the same, and
set apart by commas they are read as they stand. If there is something wrong with a token, the text is
not accepted, and what is reported is what is wrong with the first such token. -/
theorem parseSymbols_canonical (text : String) :
    ∃ tokens, (∀ other, Text.CutAt ',' text other ↔ other = tokens) ∧
      (∀ symbols, parseSymbols text = .ok symbols →
        symbols = tokens.map normalSymbol ∧ symbols ≠ [] ∧ symbols.Nodup ∧
          (∀ symbol ∈ symbols, IsCanonical symbol) ∧
          parseSymbols (",".intercalate symbols) = .ok symbols) ∧
      ((∃ e, parseSymbols text = .error e) ↔
        ∃ before token after, tokens = before ++ token :: after ∧
          Offends (before.map normalSymbol) token) ∧
      ∀ e, parseSymbols text = .error e ↔
        ∃ before token after, tokens = before ++ token :: after ∧ NoneOffends [] before ∧
          SymbolError.Blames (before.map normalSymbol) token e := by
  have hcut := Text.cutAt_pieces ',' text
  refine ⟨_, fun other => Text.cutAt_iff, fun symbols hsymbols => ?_, ⟨?_, ?_⟩,
    fun e => parseSymbols_eq_error hcut⟩
  · obtain ⟨hnone, rfl⟩ := parseSymbols_eq_ok hcut hsymbols
    have hne : (Text.pieces ',' text).map normalSymbol ≠ [] := by simpa using hcut.ne_nil
    have hnodup := nodup_of_noneOffends hnone
    have hcanonical := isCanonical_of_noneOffends hnone
    exact ⟨rfl, hne, hnodup, hcanonical, parseSymbols_intercalate hne hnodup hcanonical⟩
  · rintro ⟨e, h⟩
    obtain ⟨before, token, after, heq, -, he⟩ := (parseSymbols_eq_error hcut).mp h
    exact ⟨before, token, after, heq, e, he⟩
  · rintro ⟨before, token, after, heq, hoffends⟩
    -- otherwise the text would be accepted, and there would be nothing wrong with any token
    cases h : parseSymbols text with
    | error e => exact ⟨e, rfl⟩
    | ok symbols => exact absurd hoffends ((parseSymbols_eq_ok hcut h).1 before token after heq)

/-- Two lists with blanks, small letters and a letter from outside ASCII. In the second one a symbol
occurs twice, and then comes a token with a character that no symbol has. -/
theorem parseSymbols_canonical_spelt :
    (Text.CutAt ',' " btcusdt,ETH ,ſol" [" btcusdt", "ETH ", "ſol"] ∧
      parseSymbols " btcusdt,ETH ,ſol" = .ok ["BTCUSDT", "ETH", "SOL"] ∧
      parseSymbols "BTCUSDT,ETH,SOL" = .ok ["BTCUSDT", "ETH", "SOL"]) ∧
    Text.CutAt ',' "ſol,Sol ,e/th" ["ſol", "Sol ", "e/th"] ∧
      parseSymbols "ſol,Sol ,e/th" = .error (.duplicate "SOL") ∧
      ∃ before token after, ["ſol", "Sol ", "e/th"] = before ++ token :: after ∧
        NoneOffends [] before ∧
        SymbolError.Blames (before.map normalSymbol) token (.duplicate "SOL") := by
  have haccepted : Text.CutAt ',' " btcusdt,ETH ,ſol" [" btcusdt", "ETH ", "ſol"] :=
    Text.cutAt_iff.mpr (by decide +kernel)
  have hrejected : Text.CutAt ',' "ſol,Sol ,e/th" ["ſol", "Sol ", "e/th"] :=
    Text.cutAt_iff.mpr (by decide +kernel)
  have hok : parseSymbols " btcusdt,ETH ,ſol" = .ok ["BTCUSDT", "ETH", "SOL"] := by decide +kernel
  have herror : parseSymbols "ſol,Sol ,e/th" = .error (.duplicate "SOL") := by decide +kernel
  obtain ⟨_, -, hform, -⟩ := parseSymbols_canonical " btcusdt,ETH ,ſol"
  obtain ⟨tokens, htokens, -, -, hfirst⟩ := parseSymbols_canonical "ſol,Sol ,e/th"
  obtain rfl := (htokens _).mp hrejected
  exact ⟨⟨haccepted, hok, (hform _ hok).2.2.2.2⟩, hrejected, herror, (hfirst _).mp herror⟩

end Lists

end TopDown
