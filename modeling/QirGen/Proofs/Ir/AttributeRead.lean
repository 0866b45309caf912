import QirGen.Proofs.Ir.Text
import QirGen.Ir.AttributeScan
import Mathlib.Data.List.TakeWhile

/-!
# Reading the entry attributes back from a module's text

`AttributeScan.entryAttributes` reads a module's text line by line. Of the lines of a module
that defines one function, the entry point, the scan reads two: the function's `define` line,
which refers to group `#0` (`scanLine_defineLine`), and the line of that group, which it parses
back into the function's attributes (`scanLine_groupLine`). It passes over every other line
(`Passes`): the header, instructions, declarations, flags, and labels that read as neither.
`entryAttributes_render` assembles these: reading the text gives `Module.entryAttributes`.

The group reader itself inverts the writing of attributes (`parseGroup_attributeText`): attributes
joined by single blanks, with any blanks around them and no quote in a key or a value, read back
as the map they make, each key once with the value of its last attribute.
-/

namespace QirGen
namespace Text

theorem isBlank_space : isBlank ' ' = true := rfl

/-- Trimming a text that starts with a character other than a blank trims its end only. -/
theorem trimBlanks_cons {c : Char} (hc : isBlank c = false) (cs : List Char) :
    trimBlanks (c :: cs) = c :: (cs.reverse.dropWhile isBlank).reverse := by
  rw [trimBlanks, List.dropWhile_cons_of_neg (by simp [hc]), List.reverse_cons, List.dropWhile_append]
  split
  · rename_i h
    rw [List.dropWhile_cons_of_neg (by simp [hc])]
    simp_all
  · simp

/-- Leading blanks are trimmed. -/
theorem trimBlanks_blanks_append {b : List Char} (hb : ∀ x ∈ b, isBlank x = true) (cs : List Char) :
    trimBlanks (b ++ cs) = trimBlanks cs := by
  rw [trimBlanks, trimBlanks, List.dropWhile_append_of_pos hb]

/-- Trailing blanks after a part that ends with a character other than a blank are trimmed
from after that part. -/
theorem dropWhile_reverse_append {p : List Char} (hp : p.reverse.dropWhile isBlank = p.reverse)
    (s : List Char) :
    ((p ++ s).reverse.dropWhile isBlank).reverse = p ++ (s.reverse.dropWhile isBlank).reverse := by
  rw [List.reverse_append, List.dropWhile_append]
  split
  · rename_i h
    rw [hp, List.reverse_reverse, List.isEmpty_iff.1 h, List.reverse_nil, List.append_nil]
  · simp

/-- A text that ends with a character other than a blank has no trailing blanks. -/
theorem dropWhile_reverse_concat {c : Char} (hc : isBlank c = false) (q : List Char) :
    ((q ++ [c]).reverse.dropWhile isBlank).reverse = q ++ [c] := by
  rw [List.reverse_append, List.reverse_singleton, List.singleton_append,
    List.dropWhile_cons_of_neg (by simp [hc]), List.reverse_cons, List.reverse_reverse]

/-- A line that starts and ends with a character other than a blank is trimmed to itself. -/
theorem trimBlanks_of_ends {c d : Char} (hc : isBlank c = false) (hd : isBlank d = false) (q : List Char) :
    trimBlanks (c :: (q ++ [d])) = c :: (q ++ [d]) := by
  rw [trimBlanks_cons hc, dropWhile_reverse_concat hd]

/-- A word followed by blanks trims to the word. -/
theorem trimBlanks_append_blanks {w b : List Char} (hw : ∀ c ∈ w, isBlank c = false)
    (hb : ∀ c ∈ b, isBlank c = true) : trimBlanks (w ++ b) = w := by
  have hend : (b.reverse.dropWhile isBlank).reverse = [] := by
    rw [List.dropWhile_eq_nil_iff.2 (by simpa using hb), List.reverse_nil]
  cases w with
  | nil => simp [trimBlanks, List.dropWhile_eq_nil_iff.2 hb]
  | cons c w' =>
    have hw' : w'.reverse.dropWhile isBlank = w'.reverse := by
      cases h : w'.reverse with
      | nil => rfl
      | cons x xs =>
        have hx : x ∈ w' := List.mem_reverse.1 (h ▸ List.mem_cons_self)
        rw [List.dropWhile_cons_of_neg (by simp [hw x (List.mem_cons_of_mem c hx)])]
    rw [List.cons_append, trimBlanks_cons (hw c List.mem_cons_self), dropWhile_reverse_append hw', hend,
      List.append_nil]

end Text

namespace Ir

/-! ### Keys of sorted maps -/

theorem mem_keys_insertSorted {β : Type} (k k' : String) (v : β) :
    ∀ m : List (String × β), k' ∈ (insertSorted k v m).map Prod.fst ↔ k' = k ∨ k' ∈ m.map Prod.fst
  | [] => by simp [insertSorted]
  | (k₁, v₁) :: rest => by
    have ih := mem_keys_insertSorted k k' v rest
    unfold insertSorted
    split_ifs with hlt heq
    · simp
    · subst heq
      simp
    · simp only [List.map_cons, List.mem_cons, ih]
      exact or_left_comm

/-- The keys of a sorted map are the keys of its pairs. -/
theorem mem_keys_toSortedMap {β : Type} (ps : List (String × β)) (k : String) :
    k ∈ (toSortedMap ps).map Prod.fst ↔ k ∈ ps.map Prod.fst := by
  -- the fold's accumulator holds the keys read so far
  suffices h : ∀ acc : List (String × β),
      k ∈ (ps.foldl (fun m p => insertSorted p.1 p.2 m) acc).map Prod.fst ↔
      k ∈ acc.map Prod.fst ∨ k ∈ ps.map Prod.fst by
    simpa [toSortedMap] using h []
  induction ps with
  | nil => simp
  | cons p ps ih =>
    intro acc
    rw [List.foldl_cons, ih, mem_keys_insertSorted, List.map_cons, List.mem_cons, or_assoc, or_left_comm]

/-- A key other than a map's first key is looked up in the rest. -/
theorem lookup_cons_of_ne {β : Type} {k k' : String} (v : β) (m : List (String × β)) (h : k' ≠ k) :
    ((k, v) :: m).lookup k' = m.lookup k' := by
  simp [List.lookup_cons, beq_false_of_ne h]

/-- After an insertion a key finds the inserted value if it is the inserted key, and what it
found before otherwise. -/
theorem lookup_insertSorted {β : Type} (k k' : String) (v : β) :
    ∀ m : List (String × β), (insertSorted k v m).lookup k' = if k' = k then some v else m.lookup k'
  | [] => by
    by_cases h : k' = k
    · rw [h, insertSorted, List.lookup_cons_self, if_pos rfl]
    · rw [insertSorted, lookup_cons_of_ne v _ h, if_neg h]
  | (k₁, v₁) :: rest => by
    have ih := lookup_insertSorted k k' v rest
    by_cases hlt : k < k₁
    · rw [insertSorted, if_pos hlt]
      by_cases h : k' = k
      · rw [h, List.lookup_cons_self, if_pos rfl]
      · rw [lookup_cons_of_ne v _ h, if_neg h]
    by_cases heq : k = k₁
    · rw [insertSorted, if_neg hlt, if_pos heq]
      by_cases h : k' = k
      · rw [h, List.lookup_cons_self, if_pos rfl]
      · rw [lookup_cons_of_ne v _ h, if_neg h, lookup_cons_of_ne v₁ _ (heq ▸ h)]
    -- the pair kept in front is not the inserted key
    rw [insertSorted, if_neg hlt, if_neg heq]
    by_cases h₁ : k' = k₁
    · rw [h₁, List.lookup_cons_self, if_neg (Ne.symm heq), List.lookup_cons_self]
    · rw [lookup_cons_of_ne v₁ _ h₁, ih, lookup_cons_of_ne v₁ _ h₁]

/-- A sorted map finds, for each key, the value of the last pair with that key. -/
theorem lookup_toSortedMap {β : Type} (ps : List (String × β)) (k : String) :
    (toSortedMap ps).lookup k = ps.reverse.lookup k := by
  -- the fold's accumulator is looked up after the pairs still to come, last first
  suffices h : ∀ acc : List (String × β),
      (ps.foldl (fun m p => insertSorted p.1 p.2 m) acc).lookup k = (ps.reverse ++ acc).lookup k by
    simpa [toSortedMap] using h []
  induction ps with
  | nil => simp
  | cons p ps ih =>
    intro acc
    have hfront : (insertSorted p.1 p.2 acc).lookup k = (p :: acc).lookup k := by
      by_cases h : k = p.1
      · rw [lookup_insertSorted, if_pos h, h, List.lookup_cons_self]
      · rw [lookup_insertSorted, if_neg h, lookup_cons_of_ne p.2 _ h]
    rw [List.foldl_cons, ih, List.reverse_cons, List.append_assoc, List.lookup_append,
      List.lookup_append, hfront, List.singleton_append]

namespace AttributeScan

open Text

/-- The scan leaves what it has found as it is on this line. -/
def Passes (l : String) : Prop := ∀ found, scanLine found (trimBlanks l.toList) = found

/-- A line that is neither an attribute group nor a definition is passed over. -/
theorem passes_of_not_prefix {l : String}
    (ha : "attributes #".toList.isPrefixOf (trimBlanks l.toList) = false)
    (hd : "define ".toList.isPrefixOf (trimBlanks l.toList) = false) : Passes l := by
  intro found
  simp only [scanLine, afterPrefix, ha, hd, Bool.false_eq_true, if_false]

theorem passes_of_cons {l : String} {c : Char} {cs : List Char} (h : trimBlanks l.toList = c :: cs)
    (ha : c ≠ 'a') (hd : c ≠ 'd') : Passes l :=
  passes_of_not_prefix (by rw [h]; simp [List.isPrefixOf_cons_cons, Ne.symm ha])
    (by rw [h]; simp [List.isPrefixOf_cons_cons, Ne.symm hd])

theorem passes_empty : Passes "" := passes_of_not_prefix rfl rfl

theorem passes_of_head {l : String} {c : Char} (h : l.toList.head? = some c)
    (hc : isBlank c = false) (ha : c ≠ 'a') (hd : c ≠ 'd') : Passes l := by
  obtain ⟨cs, hcs⟩ := List.head?_eq_some_iff.1 h
  exact passes_of_cons (by rw [hcs, trimBlanks_cons hc]) ha hd

/-- An indented line passes when its text starts with a character other than `a` or `d`. -/
theorem passes_of_indented {l : String} {c : Char} {cs : List Char}
    (h : l.toList = ' ' :: ' ' :: c :: cs) (hc : isBlank c = false) (ha : c ≠ 'a') (hd : c ≠ 'd') :
    Passes l :=
  passes_of_cons (by
    rw [h, show ' ' :: ' ' :: c :: cs = [' ', ' '] ++ c :: cs from rfl,
      trimBlanks_blanks_append (by simp [isBlank_space]), trimBlanks_cons hc]) ha hd

/-- An instruction line is indented, then starts with a binding, a call, a branch or the
return. -/
theorem Instr.passes_text (x : Instr) : Passes x.text := by
  cases x with
  | call c rt args r =>
    cases r with
    | some n =>
      exact passes_of_indented (c := '%') (by simp [Instr.text]; rfl) (by decide) (by decide) (by decide)
    | none =>
      exact passes_of_indented (c := 'c') (by simp [Instr.text]; rfl) (by decide) (by decide) (by decide)
  | br t =>
    exact passes_of_indented (c := 'b') (by simp [Instr.text]; rfl) (by decide) (by decide) (by decide)
  | condBr v t e =>
    exact passes_of_indented (c := 'b') (by simp [Instr.text]; rfl) (by decide) (by decide) (by decide)
  | ret => exact passes_of_indented (c := 'r') (by simp [Instr.text]; rfl) (by decide) (by decide) (by decide)

/-- A digit is no blank. -/
theorem isBlank_of_isDigit {c : Char} (hdigit : c.isDigit = true) : isBlank c = false := by
  have hrange : 48 ≤ c.toNat ∧ c.toNat ≤ 57 := by
    simp only [Char.isDigit, Bool.and_eq_true, decide_eq_true_eq] at hdigit
    exact ⟨hdigit.1, hdigit.2⟩
  simp only [isBlank, Bool.or_eq_false_iff, Bool.and_eq_false_iff, decide_eq_false_iff_not,
    beq_eq_false_iff_ne]
  omega

/-- The first word of a text that starts with a word and a blank. -/
theorem firstWord_append {w r : List Char} (hw : w ≠ []) (hblank : ∀ c ∈ w, isBlank c = false) :
    firstWord (w ++ ' ' :: r) = some w := by
  obtain ⟨c, w', rfl⟩ := List.exists_cons_of_ne_nil hw
  have htake : (c :: w' ++ ' ' :: r).takeWhile (!isBlank ·) = c :: w' := by
    rw [List.takeWhile_append_of_pos (by simpa using hblank)]
    simp [isBlank_space]
  have hdrop : (c :: w' ++ ' ' :: r).dropWhile isBlank = c :: w' ++ ' ' :: r := by
    rw [List.cons_append, List.dropWhile_cons_of_neg (by simp [hblank c List.mem_cons_self])]
  rw [firstWord, hdrop, htake]

/-- The text after the last `#` of a line. -/
theorem afterLastHash_append {A B : List Char} (hB : '#' ∉ B) : afterLastHash (A ++ '#' :: B) = some B := by
  have htake : (A ++ '#' :: B).reverse.takeWhile (· != '#') = B.reverse := by
    rw [List.reverse_append, List.reverse_cons, List.append_assoc, List.takeWhile_append_of_pos]
    · simp
    · intro x hx
      have : x ≠ '#' := fun hx' => hB (List.mem_reverse.1 (hx' ▸ hx))
      simpa using this
  simp only [afterLastHash, htake, List.length_reverse, List.length_append, List.length_cons]
  rw [if_neg (by omega), show A.length + (B.length + 1) - B.length = A.length + 1 by omega]
  simp [List.drop_append]

/-- A decimal numeral holds digits only. -/
theorem isDigit_of_mem_toString {c : Char} {n : Nat} (h : c ∈ (toString n).toList) :
    c.isDigit = true := by
  have h' : c ∈ Nat.toDigits 10 n := by simpa using h
  exact Nat.isDigit_of_mem_toDigits (by decide) (by decide) h'

/-- A `define` line refers to the group its number names. -/
theorem scanLine_defineLine (f : Function) (g : Nat) (found : Found) :
    scanLine found (trimBlanks (f.defineLine (some g)).toList) =
      { found with referred := found.referred ++ [toString g] } := by
  have hline : (f.defineLine (some g)).toList =
      'd' :: ("efine void @".toList ++ f.name.toList ++ "() ".toList) ++
        '#' :: ((toString g).toList ++ [' ', '\x7b']) := by
    unfold Function.defineLine
    simp
  have htrim : trimBlanks (f.defineLine (some g)).toList = (f.defineLine (some g)).toList := by
    rw [hline, List.cons_append, trimBlanks_cons (by decide)]
    simp [show isBlank '\x7b' = false by decide]
  have hword : (afterLastHash (f.defineLine (some g)).toList).bind firstWord = some (toString g).toList := by
    have hhash : '#' ∉ (toString g).toList ++ [' ', '\x7b'] := by
      intro h
      rcases List.mem_append.1 h with h | h
      · exact absurd (isDigit_of_mem_toString h) (by decide)
      · simp at h
    rw [hline, afterLastHash_append hhash, Option.bind_some]
    exact firstWord_append (by simp) fun c hc => isBlank_of_isDigit (isDigit_of_mem_toString hc)
  have hattr : "attributes #".toList.isPrefixOf (f.defineLine (some g)).toList = false := by
    rw [hline]
    simp [List.isPrefixOf_cons_cons]
  have hdefine : "define ".toList.isPrefixOf (f.defineLine (some g)).toList = true := by
    rw [hline]
    simp
  simp only [htrim, scanLine, afterPrefix, hattr, hdefine, hword, Bool.false_eq_true, if_false, if_true,
    String.ofList_toList]

/-! ### Attribute groups -/

/-- Reading up to a quote stops at the first one. -/
theorem untilQuote_append : ∀ {s : List Char}, '"' ∉ s → ∀ r, untilQuote (s ++ '"' :: r) = (s, r)
  | [], _, _ => rfl
  | c :: s, h, r => by
    have hc : c ≠ '"' := fun hc => h (hc ▸ List.mem_cons_self)
    rw [List.cons_append, untilQuote, untilQuote_append (fun hs => h (List.mem_cons_of_mem c hs)) r]
    exact hc

/-- An attribute as written, with its key and value free of quotes, reads back as itself. -/
theorem readAttribute_text {a : Attribute} (hk : '"' ∉ a.key.toList)
    (hv : ∀ v ∈ a.value, '"' ∉ v.toList)
    {rest : List Char} (hr : ∀ r, rest ≠ '=' :: r) :
    readAttribute (a.text.toList ++ rest) = ((a.key, a.value), rest) := by
  obtain ⟨key, value⟩ := a
  cases value with
  | none =>
    have hline : (Attribute.text ⟨key, none⟩).toList ++ rest = '"' :: (key.toList ++ '"' :: rest) := by
      simp [Attribute.text]
    rw [hline]
    -- the key is read up to its closing quote, and no `=` follows
    simp only [readAttribute, untilQuote_append hk, String.ofList_toList]
  | some v =>
    have hline : (Attribute.text ⟨key, some v⟩).toList ++ rest =
        '"' :: (key.toList ++ '"' :: '=' :: '"' :: (v.toList ++ '"' :: rest)) := by
      simp [Attribute.text]
    rw [hline]
    simp only [readAttribute, untilQuote_append hk, untilQuote_append (hv v rfl), String.ofList_toList]

/-- A written attribute starts with the quote of its key. -/
theorem Attribute.text_toList (a : Attribute) : ∃ cs, a.text.toList = '"' :: cs := by
  cases h : a.value <;> exact ⟨_, by simp [Attribute.text, h]; rfl⟩

/-- A round of the group reader starts by skipping blanks, so blanks in front change nothing. -/
theorem parseGroup_go_blanks {pre : List Char} (hpre : ∀ c ∈ pre, isBlank c = true) (fuel : Nat)
    (cs : List Char) (acc : List (String × Option String)) :
    parseGroup.go fuel (pre ++ cs) acc = parseGroup.go fuel cs acc := by
  cases fuel with
  | zero => rfl
  | succ fuel =>
    unfold parseGroup.go
    rw [List.dropWhile_append_of_pos hpre]

/-- Attributes written one after another, each after a blank, and followed by blanks, read back
as the map they make in order, given as many rounds as there are attributes. -/
theorem parseGroup_go_attributes {post : List Char} (hpost : ∀ c ∈ post, isBlank c = true) :
    ∀ (as : List Attribute) (fuel : Nat)
    (acc : List (String × Option String)), as.length < fuel →
    (∀ a ∈ as, '"' ∉ a.key.toList ∧ ∀ v ∈ a.value, '"' ∉ v.toList) →
    parseGroup.go fuel (as.flatMap (fun a => ' ' :: a.text.toList) ++ post) acc =
      as.foldl (fun m a => insertSorted a.key a.value m) acc
  | _, 0, _, hlen, _ => absurd hlen (Nat.not_lt_zero _)
  | [], fuel + 1, acc, _, _ => by
    simp [parseGroup.go, List.dropWhile_eq_nil_iff.2 (by simpa using hpost)]
  | a :: as, fuel + 1, acc, hlen, hq => by
    -- what follows an attribute is a blank, never `=`
    have hrest : ∀ r, as.flatMap (fun a => ' ' :: a.text.toList) ++ post ≠ '=' :: r := by
      intro r h
      cases as with
      | nil =>
        rw [List.flatMap_nil, List.nil_append] at h
        exact absurd (hpost '=' (h ▸ List.mem_cons_self)) (by decide)
      | cons => simp at h
    obtain ⟨cs, hcs⟩ := Attribute.text_toList a
    -- the blank before the attribute is skipped, and the attribute read whole
    have hdrop : (' ' :: a.text.toList ++ (as.flatMap (fun a => ' ' :: a.text.toList) ++ post)).dropWhile
        isBlank = a.text.toList ++ (as.flatMap (fun a => ' ' :: a.text.toList) ++ post) := by
      rw [List.cons_append, List.dropWhile_cons_of_pos (by decide), hcs, List.cons_append,
        List.dropWhile_cons_of_neg (by decide)]
    have hread := readAttribute_text (hq a List.mem_cons_self).1 (hq a List.mem_cons_self).2 hrest
    rw [hcs, List.cons_append] at hread
    rw [List.flatMap_cons, List.append_assoc]
    unfold parseGroup.go
    rw [hdrop, hcs, List.cons_append]
    simp only [hread]
    exact parseGroup_go_attributes hpost as fuel _ (by simp at hlen; omega)
      fun a' ha' => hq a' (List.mem_cons_of_mem a ha')

/-- Texts joined by blanks, after a blank: each text after a blank. -/
theorem cons_intercalate_blank : ∀ {ts : List String}, ts ≠ [] →
    ' ' :: (" ".intercalate ts).toList = ts.flatMap fun t => ' ' :: t.toList
  | [], h => absurd rfl h
  | [t], _ => by simp
  | t :: t' :: ts, _ => by
    rw [String.intercalate_cons_cons, String.toList_append, String.toList_append, List.flatMap_cons,
      ← cons_intercalate_blank (List.cons_ne_nil t' ts)]
    simp

/-- Each written attribute takes a blank and at least one more character. -/
theorem length_flatMap_text (as : List Attribute) :
    2 * as.length ≤ (as.flatMap fun a => ' ' :: a.text.toList).length := by
  induction as with
  | nil => simp
  | cons a as ih =>
    obtain ⟨cs, hcs⟩ := Attribute.text_toList a
    simp only [List.flatMap_cons, List.length_append, List.length_cons, hcs]
    omega

/-- Attributes joined by blanks take at least a character each. -/
theorem length_le_intercalate_text (as : List Attribute) :
    as.length ≤ (" ".intercalate (as.map Attribute.text)).toList.length := by
  cases as with
  | nil => simp
  | cons a as =>
    have hjoin := congrArg List.length (cons_intercalate_blank (show (a :: as).map Attribute.text ≠ [] by simp))
    rw [List.flatMap_map, List.length_cons] at hjoin
    have := length_flatMap_text (a :: as)
    simp only [List.length_cons] at this ⊢
    omega

/-- Attributes written one after another, joined by single blanks and surrounded by any blanks,
with no quote in a key or a value, read back as the map they make in order. -/
theorem parseGroup_intercalate (as : List Attribute) {pre post : List Char}
    (hpre : ∀ c ∈ pre, isBlank c = true) (hpost : ∀ c ∈ post, isBlank c = true)
    (hq : ∀ a ∈ as, '"' ∉ a.key.toList ∧ ∀ v ∈ a.value, '"' ∉ v.toList) :
    parseGroup (pre ++ (" ".intercalate (as.map Attribute.text)).toList ++ post) =
      toSortedMap (as.map fun a => (a.key, a.value)) := by
  -- past the blanks in front, the text reads as each attribute after a blank
  have hgo : ∀ fuel, parseGroup.go fuel (pre ++ (" ".intercalate (as.map Attribute.text)).toList ++ post) [] =
      parseGroup.go fuel (as.flatMap (fun a => ' ' :: a.text.toList) ++ post) [] := by
    intro fuel
    rw [List.append_assoc, parseGroup_go_blanks hpre]
    cases as with
    | nil => rfl
    | cons a as =>
      have hjoin : ' ' :: (" ".intercalate ((a :: as).map Attribute.text)).toList =
          (a :: as).flatMap fun a => ' ' :: a.text.toList := by
        rw [cons_intercalate_blank (by simp), List.flatMap_map]
      rw [← hjoin]
      exact (parseGroup_go_blanks (show ∀ c ∈ [' '], isBlank c = true by simp [isBlank_space]) fuel _ []).symm
  have hlen := length_le_intercalate_text as
  rw [parseGroup, hgo, parseGroup_go_attributes hpost as _ [] (by simp only [List.length_append]; omega) hq,
    toSortedMap, List.foldl_map]

/-- The pairs of attributes find, for a key, the value of the first attribute with that key. -/
theorem lookup_map_attributes (as : List Attribute) (k : String) :
    (as.map fun a => (a.key, a.value)).lookup k = (as.find? (·.key == k)).map (·.value) := by
  induction as with
  | nil => rfl
  | cons a as ih =>
    by_cases h : k = a.key
    · subst h
      simp [List.lookup_cons_self]
    · rw [List.map_cons, lookup_cons_of_ne _ _ h, ih, List.find?_cons_of_neg (by simpa using Ne.symm h)]

/-- **An attribute group reads back as its map.** Attributes written one after another, joined by
single blanks and surrounded by any blanks, with no quote in a key or a value, read back as the
map the entry point's attributes make (`Module.entryAttributes`): each key once, with the value of
its last attribute, `none` for a bare key and `some ""` for an empty value. -/
theorem parseGroup_attributeText (as : List Attribute) {pre post : List Char}
    (hpre : ∀ c ∈ pre, isBlank c = true) (hpost : ∀ c ∈ post, isBlank c = true)
    (hq : ∀ a ∈ as, '"' ∉ a.key.toList ∧ ∀ v ∈ a.value, '"' ∉ v.toList) :
    parseGroup (pre ++ (" ".intercalate (as.map Attribute.text)).toList ++ post) =
        toSortedMap (as.map fun a => (a.key, a.value)) ∧
      ∀ k, (parseGroup (pre ++ (" ".intercalate (as.map Attribute.text)).toList ++ post)).lookup k =
        (as.reverse.find? (·.key == k)).map (·.value) := by
  have hparse := parseGroup_intercalate as hpre hpost hq
  refine ⟨hparse, fun k => ?_⟩
  rw [hparse, lookup_toSortedMap, ← List.map_reverse, lookup_map_attributes]

/-- A group with a bare key, a value holding a blank, an empty key with an empty value and a
repeated key, between a tab and a line break: it reads back as the map of its attributes, and
the repeated key with its last value. -/
theorem parseGroup_attributeText_repeated :
    let as : List Attribute := [⟨"EntryPoint", none⟩, ⟨"k", some "v w"⟩, ⟨"", some ""⟩, ⟨"k", some "x"⟩]
    parseGroup (['\t', ' '] ++ (" ".intercalate (as.map Attribute.text)).toList ++ [' ', '\n']) =
        toSortedMap (as.map fun a => (a.key, a.value)) ∧
      (parseGroup (['\t', ' '] ++ (" ".intercalate (as.map Attribute.text)).toList ++ [' ', '\n'])).lookup "k" =
        some (some "x") := by
  intro as
  have hpre : ∀ c ∈ ['\t', ' '], isBlank c = true := by
    intro c hc
    simp only [List.mem_cons, List.not_mem_nil, or_false] at hc
    rcases hc with rfl | rfl <;> rfl
  have hpost : ∀ c ∈ [' ', '\n'], isBlank c = true := by
    intro c hc
    simp only [List.mem_cons, List.not_mem_nil, or_false] at hc
    rcases hc with rfl | rfl <;> rfl
  have h := parseGroup_attributeText as hpre hpost (by simp [as])
  exact ⟨h.1, (h.2 "k").trans rfl⟩

/-- A text that starts with a prefix, after it. -/
theorem afterPrefix_append (p r : List Char) : afterPrefix p (p ++ r) = some r := by
  simp [afterPrefix, List.isPrefixOf_iff_prefix]

/-- The first `=` after a number and a blank is the one right after them. -/
theorem idxOf?_digits_blank_eq {ds : List Char} (hdigits : ∀ c ∈ ds, c.isDigit = true)
    (rest : List Char) : (ds ++ ' ' :: '=' :: rest).idxOf? '=' = some (ds.length + 1) := by
  have hnone : ds.findIdx? (· == '=') = none := by
    rw [List.findIdx?_eq_none_iff]
    intro x hx
    have hx' : x ≠ '=' := fun h => absurd (h ▸ hdigits x hx) (by decide)
    simpa using hx'
  show List.findIdx? (· == '=') _ = _
  rw [List.findIdx?_append, hnone]
  simp [List.findIdx?_cons, Nat.add_comm]

/-- An attribute group line defines the group its number names, with the attributes written in
it. -/
theorem scanLine_groupLine (f : Function) (i : Nat) (found : Found)
    (hq : ∀ a ∈ f.attributes, '"' ∉ a.key.toList ∧ ∀ v ∈ a.value, '"' ∉ v.toList) :
    scanLine found (trimBlanks (f.groupLine i).toList) =
      { found with groups := insertSorted (toString i) (toSortedMap
          (f.attributes.map fun a => (a.key, a.value))) found.groups } := by
  have hparse : parseGroup (' ' :: (" ".intercalate (f.attributes.map Attribute.text)).toList ++ [' ']) = _ :=
    parseGroup_intercalate f.attributes (show ∀ c ∈ [' '], isBlank c = true by simp [isBlank_space])
      (show ∀ c ∈ [' '], isBlank c = true by simp [isBlank_space]) hq
  have hdigits : ∀ c ∈ (toString i).toList, c.isDigit = true := fun c hc => isDigit_of_mem_toString hc
  have hname : String.ofList (toString i).toList = toString i := String.ofList_toList
  generalize hX : (" ".intercalate (f.attributes.map Attribute.text)).toList = X at hparse
  generalize hds : (toString i).toList = ds at hdigits hname
  have hline : (f.groupLine i).toList =
      "attributes #".toList ++ (ds ++ ' ' :: '=' :: ' ' :: '\x7b' :: ' ' :: (X ++ [' ', '\x7d'])) := by
    simp [Function.groupLine, ← hX, ← hds]
  have htrim : trimBlanks (f.groupLine i).toList = (f.groupLine i).toList := by
    rw [hline, show "attributes #".toList = 'a' :: "ttributes #".toList from rfl, List.cons_append,
      trimBlanks_cons (by decide)]
    simp [show isBlank '\x7d' = false by decide]
  have hidx := idxOf?_digits_blank_eq hdigits (' ' :: '\x7b' :: ' ' :: (X ++ [' ', '\x7d']))
  have htake : (ds ++ ' ' :: '=' :: ' ' :: '\x7b' :: ' ' :: (X ++ [' ', '\x7d'])).take (ds.length + 1) =
      ds ++ [' '] := by
    rw [List.take_append, List.take_of_length_le (by omega), show ds.length + 1 - ds.length = 1 by omega]
    rfl
  have hdrop : (ds ++ ' ' :: '=' :: ' ' :: '\x7b' :: ' ' :: (X ++ [' ', '\x7d'])).drop (ds.length + 1 + 1) =
      ' ' :: '\x7b' :: ' ' :: (X ++ [' ', '\x7d']) := by
    rw [List.drop_append, List.drop_of_length_le (by omega), show ds.length + 1 + 1 - ds.length = 2 by omega]
    rfl
  have hid : trimBlanks (ds ++ [' ']) = ds :=
    trimBlanks_append_blanks (fun c hc => isBlank_of_isDigit (hdigits c hc)) (by simp [isBlank_space])
  have hbody : trimBlanks (' ' :: '\x7b' :: ' ' :: (X ++ [' ', '\x7d'])) =
      '\x7b' :: ' ' :: (X ++ [' ', '\x7d']) := by
    rw [show ' ' :: '\x7b' :: ' ' :: (X ++ [' ', '\x7d']) =
        [' '] ++ '\x7b' :: ' ' :: (X ++ [' ', '\x7d']) from rfl,
      trimBlanks_blanks_append (by simp [isBlank_space]), trimBlanks_cons (by decide)]
    simp [show isBlank '\x7d' = false by decide]
  have hbraces : ((('\x7b' :: ' ' :: (X ++ [' ', '\x7d'])).dropWhile (· == '\x7b')).reverse.dropWhile
      (· == '\x7d')).reverse = ' ' :: X ++ [' '] := by
    simp
  rw [htrim, hline]
  simp only [scanLine, afterPrefix_append, hidx, htake, hdrop, hid, hbody, hbraces, hparse, hname]

theorem Callee.passes_text (c : Callee) : Passes c.text := by
  obtain ⟨q, hq⟩ : ∃ q, c.text.toList = 'd' :: ('e' :: 'c' :: q ++ [')']) :=
    ⟨("lare " ++ c.ret.text ++ " @" ++ c.name ++ "(" ++ ", ".intercalate (c.params.map Ty.text)).toList,
      by unfold Callee.text; simp⟩
  have htrim : trimBlanks c.text.toList = c.text.toList := by
    rw [hq, trimBlanks_of_ends (by decide) (by decide)]
  exact passes_of_not_prefix (by rw [htrim, hq]; rfl) (by rw [htrim, hq]; rfl)

/-- The scan over lines, each trimmed. -/
def scanLines (found : Found) (ls : List String) : Found :=
  (ls.map fun l => trimBlanks l.toList).foldl scanLine found

@[simp] theorem scanLines_nil (found : Found) : scanLines found [] = found := rfl

@[simp] theorem scanLines_cons (found : Found) (l : String) (ls : List String) :
    scanLines found (l :: ls) = scanLines (scanLine found (trimBlanks l.toList)) ls := rfl

@[simp] theorem scanLines_append (found : Found) (ls ms : List String) :
    scanLines found (ls ++ ms) = scanLines (scanLines found ls) ms := by
  simp [scanLines]

theorem scanLines_of_passes :
    ∀ {ls : List String}, (∀ l ∈ ls, Passes l) → ∀ found, scanLines found ls = found
  | [], _, _ => rfl
  | l :: ls, h, found => by
    rw [scanLines_cons, h l List.mem_cons_self,
      scanLines_of_passes (fun l' hl' => h l' (List.mem_cons_of_mem l hl'))]

theorem passes_headerLines (name : String) :
    ∀ l ∈ ["; ModuleID = '" ++ name ++ "'", "source_filename = \"" ++ name ++ "\"", "",
      "%Qubit = type opaque", "%Result = type opaque"], Passes l := by
  simp only [List.mem_cons, List.not_mem_nil, or_false]
  rintro l (rfl | rfl | rfl | rfl | rfl)
  · exact passes_of_head (c := ';') (by simp) (by decide) (by decide) (by decide)
  · exact passes_of_head (c := 's') (by simp) (by decide) (by decide) (by decide)
  · exact passes_empty
  · exact passes_of_head (c := '%') (by simp) (by decide) (by decide) (by decide)
  · exact passes_of_head (c := '%') (by simp) (by decide) (by decide) (by decide)

theorem Function.passes_bodyLines {f : Function} (hlabels : ∀ b ∈ f.blocks, Passes (b.label ++ ":")) :
    ∀ l ∈ [""].intercalate (f.blocks.map Block.textLines) ++ ["\x7d"], Passes l := by
  intro l hl
  rcases Function.mem_bodyLines hl with rfl | rfl | ⟨b, hb, rfl | ⟨x, -, rfl⟩⟩
  · exact passes_empty
  · exact passes_of_head (c := '\x7d') (by simp) (by decide) (by decide) (by decide)
  · exact hlabels b hb
  · exact Instr.passes_text x

theorem passes_declarationLines (ds : List Callee) :
    ∀ l ∈ (if ds.isEmpty = true then [] else "" :: ds.map Callee.text), Passes l := by
  split
  · simp
  · simp only [List.mem_cons, List.mem_map]
    rintro l (rfl | ⟨c, -, rfl⟩)
    · exact passes_empty
    · exact Callee.passes_text c

theorem passes_flagLines (fs : List Flag) :
    ∀ l ∈ (if fs.isEmpty = true then []
      else "" :: flagsLine fs.length ::
        ((List.range fs.length).zip fs).map fun p => "!" ++ toString p.1 ++ " = " ++ p.2.text), Passes l := by
  split
  · simp
  · simp only [List.mem_cons, List.mem_map]
    rintro l (rfl | rfl | ⟨p, -, rfl⟩)
    · exact passes_empty
    · exact passes_of_head (c := '!')
        (by unfold flagsLine; simp only [String.toList_append, List.head?_append]; simp)
        (by decide) (by decide) (by decide)
    · exact passes_of_head (c := '!') (by simp) (by decide) (by decide) (by decide)

/-- The lines of a function refer to its attribute group, and to nothing else. -/
theorem scanLines_functionLines {f : Function} (hlabels : ∀ b ∈ f.blocks, Passes (b.label ++ ":"))
    (g : Nat) (found : Found) :
    scanLines found ("" :: f.textLines (some g)) =
      { found with referred := found.referred ++ [toString g] } := by
  rw [scanLines_cons, passes_empty, Function.textLines, List.cons_append, scanLines_cons, scanLine_defineLine,
    scanLines_of_passes (Function.passes_bodyLines hlabels)]

/-- The scan over the lines of a module that defines one function, with attributes, refers to
group `#0` once and reads that group as the function's attributes. -/
theorem scanLines_textLines {m : Module} {f : Function} (hfs : m.functions = [f]) (hne : f.attributes ≠ [])
    (hlabels : ∀ b ∈ f.blocks, Passes (b.label ++ ":"))
    (hq : ∀ a ∈ f.attributes, '"' ∉ a.key.toList ∧ ∀ v ∈ a.value, '"' ∉ v.toList) (found : Found) :
    scanLines found m.textLines =
      { groups := insertSorted "0" (toSortedMap (f.attributes.map fun a => (a.key, a.value))) found.groups
        referred := found.referred ++ ["0"] } := by
  have hempty : f.attributes.isEmpty = false := List.isEmpty_eq_false_iff.2 hne
  unfold Module.textLines
  simp only [hfs, groupNumbers, hempty, Bool.false_eq_true, if_false, List.zip_cons_cons, List.zip_nil_right,
    List.flatMap_cons, List.flatMap_nil, List.filter_cons, Bool.not_false, if_true, List.filter_nil,
    List.length_singleton, List.range_one, List.append_nil]
  rw [scanLines_append, scanLines_append, scanLines_append, scanLines_append,
    scanLines_of_passes (passes_headerLines m.name), scanLines_functionLines hlabels,
    scanLines_of_passes (passes_declarationLines _), scanLines_cons, passes_empty, scanLines_cons,
    scanLine_groupLine f 0 _ hq, scanLines_nil, scanLines_of_passes (passes_flagLines _)]
  rfl

/-- **Reading the entry attributes back.** For a module that defines one function, the entry
point, reading its text finds the entry point's attributes, provided the text's lines hold no
line break, no block label reads as a group or a definition, and no attribute holds a quote. -/
theorem entryAttributes_render {m : Module} {f : Function} (hfs : m.functions = [f])
    (hentry : f.isEntryPoint = true) (hlines : ∀ l ∈ m.textLines, OneLine l)
    (hlabels : ∀ b ∈ f.blocks, Passes (b.label ++ ":"))
    (hq : ∀ a ∈ f.attributes, '"' ∉ a.key.toList ∧ ∀ v ∈ a.value, '"' ∉ v.toList) :
    entryAttributes m.render = m.entryAttributes := by
  obtain ⟨a, ha, hkey⟩ : ∃ a ∈ f.attributes, (a.key == entryPointKey) = true := by
    simpa [Function.isEntryPoint, Function.attribute?] using hentry
  have hne : f.attributes ≠ [] := List.ne_nil_of_mem ha
  have hscan : ((m.render.toList.splitOn '\n').map trimBlanks).foldl scanLine {} =
      { groups := [("0", toSortedMap (f.attributes.map fun a => (a.key, a.value)))], referred := ["0"] } := by
    rw [Module.render_eq_unlines, splitOn_unlines hlines, List.map_append, List.map_map, List.foldl_append]
    show scanLines (scanLines {} m.textLines) [""] = _
    rw [scanLines_textLines hfs hne hlabels hq, scanLines_cons, passes_empty, scanLines_nil]
    rfl
  have hany :
      (toSortedMap (f.attributes.map fun a => (a.key, a.value))).any (·.1 == entryPointKey) = true := by
    have hmem : a.key ∈ (toSortedMap (f.attributes.map fun a => (a.key, a.value))).map Prod.fst := by
      rw [mem_keys_toSortedMap, List.map_map]
      exact List.mem_map_of_mem ha
    obtain ⟨p, hp, hpk⟩ := List.mem_map.1 hmem
    exact List.any_eq_true.2 ⟨p, hp, by rw [hpk]; exact hkey⟩
  unfold entryAttributes Module.entryAttributes Module.entryPoint?
  simp [hscan, hfs, hentry, hany]

end AttributeScan
end Ir
end QirGen
