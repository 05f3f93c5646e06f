import ImpLang.Parse.Token
import ImpLang.Text.Line
import ImpLang.Text.Decimal
import Mathlib.Data.List.TakeWhile

/-! Lexemes and the texts that spell them. White space may stand between lexemes in any amount; a
number and a name are maximal runs, and a keyword touches no character of words. -/
namespace ImpLang

open Token

/-- The names of the language: runs of letters that are no reserved words. -/
def IsName (x : String) : Prop :=
  x.toList ≠ [] ∧ (∀ ch ∈ x.toList, ch.isAlpha = true) ∧ x ∉ reservedWords

instance (x : String) : Decidable (IsName x) :=
  decidable_of_iff (x.toList ≠ [] ∧ x.toList.all Char.isAlpha = true ∧ x ∉ reservedWords)
    (by simp only [IsName, List.all_eq_true])

def symbols : List String :=
  ["(", ")", "[", "]", ",", ";", ":=", "*", "/", "+", "-", "<=", ">=", "/=", "==", "<", ">"]

inductive Lexeme where
  | number (digits : List Char)
  | name (x : String)
  | keyword (w : String)
  | symbol (s : String)
  deriving DecidableEq

namespace Lexeme

def text : Lexeme → List Char
  | number ds => ds
  | name x => x.toList
  | keyword w => w.toList
  | symbol s => s.toList

def Proper : Lexeme → Prop
  | number ds => ds ≠ [] ∧ ∀ ch ∈ ds, Text.isAsciiDigit ch = true
  | name x => IsName x
  | keyword w => w ∈ reservedWords
  | symbol s => s ∈ symbols

instance : (t : Lexeme) → Decidable t.Proper
  | number ds => decidable_of_iff (ds ≠ [] ∧ ds.all Text.isAsciiDigit = true)
      (by simp only [Proper, List.all_eq_true])
  | name x => inferInstanceAs (Decidable (IsName x))
  | keyword w => inferInstanceAs (Decidable (w ∈ reservedWords))
  | symbol s => inferInstanceAs (Decidable (s ∈ symbols))

/-- The characters that may not touch the lexeme on either side. -/
def clings : Lexeme → Char → Bool
  | number _ => Text.isAsciiDigit
  | name _ => Char.isAlpha
  | keyword _ => isWordChar
  | symbol _ => fun _ => false

structure Stands (t : Lexeme) (before : Option Char) (after : List Char) : Prop where
  proper : t.Proper
  apart_before : before.any t.clings = false
  apart_after : after.head?.any t.clings = false

end Lexeme

/-- The text that follows a character spells the lexemes: white space, a lexeme, and so on. -/
def Spells (before : Option Char) : List Lexeme → List Char → Prop
  | [], cs => ∀ ch ∈ cs, Cursor.isSeparator ch = true
  | t :: ts, cs => ∃ blanks rest, cs = blanks ++ (t.text ++ rest) ∧
      (∀ ch ∈ blanks, Cursor.isSeparator ch = true) ∧
      t.Stands (blanks.getLast?.or before) rest ∧ Spells t.text.getLast? ts rest

theorem isWordChar_of_isAlpha {ch : Char} (h : ch.isAlpha = true) : isWordChar ch = true := by
  simp [isWordChar, Char.isAlphanum, h]

theorem isDigit_eq_isAsciiDigit (ch : Char) : ch.isDigit = Text.isAsciiDigit ch := by
  rw [Bool.eq_iff_iff]
  simp [Text.isAsciiDigit, Char.isDigit, Char.le_def]

theorem isWordChar_of_isAsciiDigit {ch : Char} (h : Text.isAsciiDigit ch = true) :
    isWordChar ch = true := by
  simp [isWordChar, Char.isAlphanum, isDigit_eq_isAsciiDigit, h]

theorem toNat_of_isAlpha {ch : Char} (h : ch.isAlpha = true) :
    65 ≤ ch.toNat ∧ ch.toNat ≤ 90 ∨ 97 ≤ ch.toNat ∧ ch.toNat ≤ 122 := by
  change (decide (ch.val ≥ 'A'.val ∧ ch.val ≤ 'Z'.val) ||
    (decide (ch.val ≥ 'a'.val) && decide (ch.val ≤ 'z'.val))) = true at h
  simp only [Bool.or_eq_true, Bool.and_eq_true, decide_eq_true_eq, UInt32.le_iff_toNat_le,
    ge_iff_le] at h
  exact h

theorem isAlpha_eq_false_of_isAsciiDigit {ch : Char} (h : Text.isAsciiDigit ch = true) :
    ch.isAlpha = false := by
  have h9 : ch.toNat ≤ 57 := by
    simp only [Text.isAsciiDigit, Bool.and_eq_true, decide_eq_true_eq, Char.le_def,
      UInt32.le_iff_toNat_le] at h
    exact h.2
  rw [Bool.eq_false_iff]
  intro ha
  have hcode := toNat_of_isAlpha ha
  omega

theorem isWordChar_of_clings {t : Lexeme} {ch : Char} (h : t.clings ch = true) :
    isWordChar ch = true := by
  cases t with
  | number ds => exact isWordChar_of_isAsciiDigit h
  | name x => exact isWordChar_of_isAlpha h
  | keyword w => exact h
  | symbol s => simp [Lexeme.clings] at h

theorem isWordChar_eq_false_of_isSeparator {ch : Char} (h : Cursor.isSeparator ch = true) :
    isWordChar ch = false := by
  simp only [Cursor.isSeparator, Bool.or_eq_true, decide_eq_true_eq] at h
  rcases h with ((rfl | rfl) | rfl) | rfl <;> decide

theorem Text.isBlank_of_isSeparator {ch : Char} (h : Cursor.isSeparator ch = true) :
    Text.isBlank ch = true := by
  simp only [Cursor.isSeparator, Bool.or_eq_true, decide_eq_true_eq] at h
  rcases h with ((rfl | rfl) | rfl) | rfl <;> decide

theorem Text.isBlank_eq_false_of_isWordChar {ch : Char} (h : isWordChar ch = true) :
    Text.isBlank ch = false := by
  have hcode : 36 ≤ ch.toNat ∧ ch.toNat ≤ 122 := by
    simp only [isWordChar, Char.isAlphanum, Bool.or_eq_true, decide_eq_true_eq] at h
    rcases h with ((hletter | hdigit) | rfl) | rfl
    · have hcode := toNat_of_isAlpha hletter
      omega
    · change (decide (ch.val ≥ '0'.val) && decide (ch.val ≤ '9'.val)) = true at hdigit
      simp only [Bool.and_eq_true, decide_eq_true_eq, UInt32.le_iff_toNat_le, ge_iff_le] at hdigit
      change 48 ≤ ch.toNat ∧ ch.toNat ≤ 57 at hdigit
      omega
    · decide
    · decide
  -- no range of white space meets the range of these characters
  have hranges : ∀ r ∈ Text.blankRanges, r.2 < 36 ∨ 122 < r.1 := by decide
  rw [Bool.eq_false_iff]
  intro hblank
  obtain ⟨r, hr, hin⟩ := List.any_eq_true.mp hblank
  rw [Bool.and_eq_true, decide_eq_true_eq, decide_eq_true_eq] at hin
  have hapart := hranges r hr
  omega

/-- A character that is no white space stays in front when the text is trimmed. -/
theorem Text.toList_trim {s : String} {blanks rest : List Char} {ch : Char}
    (hs : s.toList = blanks ++ ch :: rest) (hblanks : ∀ b ∈ blanks, Text.isBlank b = true)
    (hch : Text.isBlank ch = false) :
    (Text.trim s).toList = ch :: Text.dropEndWhile Text.isBlank rest := by
  have hstart : s.toList.dropWhile Text.isBlank = ch :: rest := by
    rw [hs, List.dropWhile_append_of_pos hblanks, List.dropWhile_cons_of_neg (by simp [hch])]
  have hkept : (rest.reverse ++ [ch]).dropWhile Text.isBlank =
      rest.reverse.dropWhile Text.isBlank ++ [ch] := by
    rw [List.dropWhile_append]
    split
    · simp_all
    · rfl
  rw [Text.trim, String.toList_ofList, hstart, Text.dropEndWhile, List.reverse_cons, hkept,
    List.reverse_append, Text.dropEndWhile]
  rfl

theorem not_isSeparator_of_isAlpha {ch : Char} (h : ch.isAlpha = true) :
    Cursor.isSeparator ch = false := by
  rw [Bool.eq_false_iff]
  intro hs
  have hw := isWordChar_eq_false_of_isSeparator hs
  rw [isWordChar_of_isAlpha h] at hw
  exact Bool.noConfusion hw

theorem isAlpha_of_mem_reservedWords {w : String} (hw : w ∈ reservedWords) :
    ∀ ch ∈ w.toList, ch.isAlpha = true := by
  have htable : ∀ w ∈ reservedWords, w.toList.all Char.isAlpha = true := by decide
  exact List.all_eq_true.mp (htable w hw)

theorem ne_nil_of_mem_reservedWords {w : String} (hw : w ∈ reservedWords) : w.toList ≠ [] := by
  revert w
  decide

theorem ne_nil_of_mem_symbols {s : String} (hs : s ∈ symbols) : s.toList ≠ [] := by
  revert s
  decide

theorem isWordChar_eq_false_of_mem_symbols {s : String} (hs : s ∈ symbols) :
    ∀ ch ∈ s.toList, isWordChar ch = false ∧ Cursor.isSeparator ch = false := by
  have htable : ∀ s ∈ symbols,
      s.toList.all (fun ch => !isWordChar ch && !Cursor.isSeparator ch) = true := by decide
  simpa using htable s hs

theorem any_eq_false_of_imp {p q : Char → Bool} (hpq : ∀ ch, p ch = true → q ch = true)
    {o : Option Char} (h : o.any q = false) : o.any p = false := by
  cases o with
  | none => rfl
  | some ch =>
    simp only [Option.any_some] at h ⊢
    by_contra hp
    have hq := hpq ch (by simpa using hp)
    rw [hq] at h
    exact Bool.noConfusion h

theorem takeWhile_eq_nil_of_head {p : Char → Bool} {cs : List Char}
    (h : cs.head?.any p = false) : cs.takeWhile p = [] := by
  cases cs with
  | nil => rfl
  | cons ch cs =>
    have hc : p ch = false := by simpa using h
    simp [hc]

/-- A run that ends where the test fails is what the test takes. -/
theorem takeWhile_append_eq {p : Char → Bool} {run rest : List Char}
    (hrun : ∀ ch ∈ run, p ch = true) (hrest : rest.head?.any p = false) :
    (run ++ rest).takeWhile p = run := by
  rw [List.takeWhile_append_of_pos hrun, takeWhile_eq_nil_of_head hrest, List.append_nil]

/-- What is left of a text does not go on with what was taken. -/
theorem head?_dropWhile_any (p : Char → Bool) (cs : List Char) :
    (cs.dropWhile p).head?.any p = false := by
  cases hd : cs.dropWhile p with
  | nil => rfl
  | cons ch rest =>
    have hne : cs.dropWhile p ≠ [] := by simp [hd]
    have hh := List.head_dropWhile_not p hne
    simpa [hd] using hh

/-- A run that is taken as far as the test holds. -/
theorem takeWhile_eq_iff {p : Char → Bool} {cs run : List Char} : cs.takeWhile p = run ↔
    ∃ rest, cs = run ++ rest ∧ (∀ ch ∈ run, p ch = true) ∧ rest.head?.any p = false := by
  constructor
  · rintro rfl
    exact ⟨cs.dropWhile p, List.takeWhile_append_dropWhile.symm,
      fun ch hch => List.mem_takeWhile_imp hch, head?_dropWhile_any p cs⟩
  · rintro ⟨rest, rfl, hrun, hrest⟩
    exact takeWhile_append_eq hrun hrest

namespace Lexeme

theorem Proper.text_ne_nil {t : Lexeme} (h : t.Proper) : t.text ≠ [] := by
  cases t with
  | number ds => exact h.1
  | name x => exact h.1
  | keyword w => exact ne_nil_of_mem_reservedWords h
  | symbol s => exact ne_nil_of_mem_symbols h

/-- No lexeme has white space in it. -/
theorem Proper.not_separator {t : Lexeme} (h : t.Proper) :
    ∀ ch ∈ t.text, Cursor.isSeparator ch = false := by
  intro ch hc
  by_contra hs
  have hw := isWordChar_eq_false_of_isSeparator (by simpa using hs)
  cases t with
  | number ds => simp [isWordChar_of_isAsciiDigit (h.2 ch hc)] at hw
  | name x => simp [isWordChar_of_isAlpha (h.2.1 ch hc)] at hw
  | keyword w => simp [isWordChar_of_isAlpha (isAlpha_of_mem_reservedWords h ch hc)] at hw
  | symbol s => exact hs (isWordChar_eq_false_of_mem_symbols h ch hc).2

def isWord : Lexeme → Bool
  | name _ | keyword _ => true
  | number _ | symbol _ => false

def isNumber : Lexeme → Bool
  | number _ => true
  | name _ | keyword _ | symbol _ => false

theorem Proper.isAlpha_head {t : Lexeme} (h : t.Proper) :
    t.text.head?.any Char.isAlpha = t.isWord := by
  obtain ⟨ch, cs, ht⟩ := List.exists_cons_of_ne_nil h.text_ne_nil
  have hmem : ch ∈ t.text := by simp [ht]
  rw [ht]
  cases t with
  | number ds => simpa [isWord] using isAlpha_eq_false_of_isAsciiDigit (h.2 ch hmem)
  | name x => simpa [isWord] using h.2.1 ch hmem
  | keyword w => simpa [isWord] using isAlpha_of_mem_reservedWords h ch hmem
  | symbol s =>
    have hs := (isWordChar_eq_false_of_mem_symbols h ch hmem).1
    by_contra ha
    rw [isWordChar_of_isAlpha (by simpa [isWord] using ha)] at hs
    exact Bool.noConfusion hs

theorem Proper.isAsciiDigit_head {t : Lexeme} (h : t.Proper) :
    t.text.head?.any Text.isAsciiDigit = t.isNumber := by
  obtain ⟨ch, cs, ht⟩ := List.exists_cons_of_ne_nil h.text_ne_nil
  have hmem : ch ∈ t.text := by simp [ht]
  have hletter (ha : ch.isAlpha = true) : Text.isAsciiDigit ch = false := by
    by_contra hd
    rw [isAlpha_eq_false_of_isAsciiDigit (by simpa using hd)] at ha
    exact Bool.noConfusion ha
  rw [ht]
  cases t with
  | number ds => simpa [isNumber] using h.2 ch hmem
  | name x => simpa [isNumber] using hletter (h.2.1 ch hmem)
  | keyword w => simpa [isNumber] using hletter (isAlpha_of_mem_reservedWords h ch hmem)
  | symbol s =>
    have hs := (isWordChar_eq_false_of_mem_symbols h ch hmem).1
    by_contra hd
    rw [isWordChar_of_isAsciiDigit (by simpa [isNumber] using hd)] at hs
    exact Bool.noConfusion hs

/-- A lexeme that starts with no character of words is a symbol. -/
theorem Proper.eq_symbol {t : Lexeme} (h : t.Proper) {ch : Char} (hch : isWordChar ch = false)
    (ht : t.text.head? = some ch) : ∃ s ∈ symbols, t = .symbol s := by
  have hmem : ch ∈ t.text := List.mem_of_mem_head? ht
  cases t with
  | number ds => simp [isWordChar_of_isAsciiDigit (h.2 ch hmem)] at hch
  | name x => simp [isWordChar_of_isAlpha (h.2.1 ch hmem)] at hch
  | keyword w => simp [isWordChar_of_isAlpha (isAlpha_of_mem_reservedWords h ch hmem)] at hch
  | symbol s => exact ⟨s, h, rfl⟩

theorem Proper.exists_text {t : Lexeme} (h : t.Proper) : ∃ ch cs, t.text = ch :: cs :=
  List.exists_cons_of_ne_nil h.text_ne_nil

end Lexeme

namespace Lexeme.Stands

theorem takeWhile_digits {ds rest : List Char} {before : Option Char}
    (h : (Lexeme.number ds).Stands before rest) :
    (ds ++ rest).takeWhile Text.isAsciiDigit = ds :=
  takeWhile_append_eq h.proper.2 h.apart_after

/-- A name or keyword is the run of letters at which it stands. -/
theorem takeWhile_letters {t : Lexeme} {rest : List Char} {before : Option Char}
    (h : t.Stands before rest) (ht : t.isWord = true) :
    (t.text ++ rest).takeWhile Char.isAlpha = t.text := by
  cases t with
  | number ds => exact Bool.noConfusion ht
  | symbol s => exact Bool.noConfusion ht
  | name x => exact takeWhile_append_eq h.proper.2.1 h.apart_after
  | keyword w =>
    exact takeWhile_append_eq (isAlpha_of_mem_reservedWords h.proper)
      (any_eq_false_of_imp (fun _ => isWordChar_of_isAlpha) h.apart_after)

end Lexeme.Stands

/-- A symbol that begins another one is followed there by an equals sign. -/
theorem symbol_eq_or_equals {s s' : String} (hs : s ∈ symbols) (hs' : s' ∈ symbols)
    {rest rest' : List Char} (h : s.toList ++ rest = s'.toList ++ rest') :
    s = s' ∧ rest = rest' ∨ rest = '=' :: rest' ∨ rest' = '=' :: rest := by
  have htable : ∀ s ∈ symbols, ∀ s' ∈ symbols, s.toList <+: s'.toList →
      s = s' ∨ s'.toList = s.toList ++ ['='] := by decide
  have hp' : s'.toList <+: s.toList ++ rest := h.symm ▸ List.prefix_append _ _
  rcases List.prefix_or_prefix_of_prefix (List.prefix_append _ rest) hp' with hp | hp
  · rcases htable s hs s' hs' hp with rfl | heq
    · exact .inl ⟨rfl, List.append_cancel_left h⟩
    · rw [heq, List.append_assoc] at h
      exact .inr (.inl (List.append_cancel_left h))
  · rcases htable s' hs' s hs hp with rfl | heq
    · exact .inl ⟨rfl, List.append_cancel_left h⟩
    · rw [heq, List.append_assoc] at h
      exact .inr (.inr (List.append_cancel_left h).symm)

namespace Spells

theorem proper {ts : List Lexeme} {before : Option Char} {cs : List Char}
    (h : Spells before ts cs) {t : Lexeme} (ht : t ∈ ts) : t.Proper := by
  induction ts generalizing before cs with
  | nil => cases ht
  | cons t' ts ih =>
    obtain ⟨blanks, rest, -, -, hs, hrest⟩ := h
    rcases List.mem_cons.mp ht with rfl | hmem
    · exact hs.proper
    · exact ih hrest hmem

/-- Every lexeme is a run of the text. -/
theorem text_infix {ts : List Lexeme} {before : Option Char} {cs : List Char}
    (h : Spells before ts cs) {t : Lexeme} (ht : t ∈ ts) : t.text <:+: cs := by
  induction ts generalizing before cs with
  | nil => cases ht
  | cons t' ts ih =>
    obtain ⟨blanks, rest, rfl, -, -, hrest⟩ := h
    rcases List.mem_cons.mp ht with rfl | hmem
    · exact ⟨blanks, rest, by simp⟩
    · have hsuffix : rest <:+ blanks ++ (t'.text ++ rest) := ⟨blanks ++ t'.text, by simp⟩
      exact (ih hrest hmem).trans hsuffix.isInfix

/-- The only lexeme that starts with an equals sign has another one. -/
theorem equals_cons {before : Option Char} {ts : List Lexeme} {cs : List Char}
    (h : Spells before ts ('=' :: cs)) :
    ∃ ts' cs', cs = '=' :: cs' ∧ Spells (some '=') ts' cs' := by
  cases ts with
  | nil => exact absurd (h '=' (by simp)) (by decide)
  | cons t ts =>
    obtain ⟨blanks, rest, hcs, hb, hs, hrest⟩ := h
    have hnil : blanks = [] := by
      cases blanks with
      | nil => rfl
      | cons ch blanks =>
        obtain ⟨rfl, -⟩ := List.cons.inj hcs
        exact absurd (hb '=' (by simp)) (by decide)
    subst hnil
    obtain ⟨ch, chs, htext⟩ := hs.proper.exists_text
    have hch : ch = '=' := by
      rw [List.nil_append, htext, List.cons_append] at hcs
      exact (List.cons.inj hcs).1.symm
    obtain ⟨s, hmem, rfl⟩ := hs.proper.eq_symbol (show isWordChar '=' = false by decide)
      (by rw [htext, hch]; rfl)
    have hone : ∀ s ∈ symbols, s.toList.head? = some '=' → s = "==" := by decide
    obtain rfl := hone s hmem (by rw [show s.toList = ch :: chs from htext, hch]; rfl)
    exact ⟨ts, rest, (List.cons.inj hcs).2, hrest⟩

/-- Equals signs stand in pairs, so a text that starts with them is spelled with one more or with
one less, not both. -/
theorem not_equals_cons {before before' : Option Char} {ts ts' : List Lexeme} {cs : List Char}
    (h : Spells before ts ('=' :: cs)) (h' : Spells before' ts' cs) : False := by
  -- taking off a pair leaves the two spellings with their parts exchanged
  induction hn : cs.length using Nat.strongRecOn generalizing before before' ts ts' cs with
  | ind n ih =>
    obtain ⟨us, cs', rfl, hus⟩ := h.equals_cons
    exact ih cs'.length (by simp [← hn]) h' hus rfl

/-- A lexeme is given by the text it begins, up to the equals sign that may lengthen a symbol. -/
theorem lexeme_eq_or_equals {t t' : Lexeme} {before : Option Char} {rest rest' : List Char}
    (hs : t.Stands before rest) (hs' : t'.Stands before rest')
    (h : t.text ++ rest = t'.text ++ rest') :
    t = t' ∧ rest = rest' ∨ rest = '=' :: rest' ∨ rest' = '=' :: rest := by
  obtain ⟨ch, chs, htext⟩ := hs.proper.exists_text
  obtain ⟨ch', chs', htext'⟩ := hs'.proper.exists_text
  have hhead : t.text.head? = t'.text.head? := by
    rw [htext, htext', List.cons_append, List.cons_append] at h
    rw [htext, htext', List.head?_cons, List.head?_cons, (List.cons.inj h).1]
  have hword : t.isWord = t'.isWord := by
    rw [← hs.proper.isAlpha_head, ← hs'.proper.isAlpha_head, hhead]
  have hnumber : t.isNumber = t'.isNumber := by
    rw [← hs.proper.isAsciiDigit_head, ← hs'.proper.isAsciiDigit_head, hhead]
  -- numbers and words are maximal runs of the same characters, so only symbols can differ
  cases t with
  | number ds =>
    cases t' with
    | number ds' =>
      have hrun : ds' = ds := by
        have htake := congrArg (List.takeWhile Text.isAsciiDigit) h
        exact hs'.takeWhile_digits.symm.trans (htake.symm.trans hs.takeWhile_digits)
      subst hrun
      exact .inl ⟨rfl, List.append_cancel_left h⟩
    | name x => exact Bool.noConfusion hnumber
    | keyword w => exact Bool.noConfusion hnumber
    | symbol s => exact Bool.noConfusion hnumber
  | name x =>
    have hrun := hs.takeWhile_letters rfl
    rw [h, hs'.takeWhile_letters hword.symm] at hrun
    cases t' with
    | name x' =>
      obtain rfl : x' = x := String.toList_injective hrun
      exact .inl ⟨rfl, List.append_cancel_left h⟩
    | keyword w =>
      obtain rfl : w = x := String.toList_injective hrun
      exact absurd hs'.proper hs.proper.2.2
    | number ds => exact Bool.noConfusion hnumber
    | symbol s => exact Bool.noConfusion hword
  | keyword w =>
    have hrun := hs.takeWhile_letters rfl
    rw [h, hs'.takeWhile_letters hword.symm] at hrun
    cases t' with
    | name x =>
      obtain rfl : x = w := String.toList_injective hrun
      exact absurd hs.proper hs'.proper.2.2
    | keyword w' =>
      obtain rfl : w' = w := String.toList_injective hrun
      exact .inl ⟨rfl, List.append_cancel_left h⟩
    | number ds => exact Bool.noConfusion hnumber
    | symbol s => exact Bool.noConfusion hword
  | symbol s =>
    cases t' with
    | symbol s' =>
      rcases symbol_eq_or_equals hs.proper hs'.proper h with ⟨rfl, hrest⟩ | hequals
      · exact .inl ⟨rfl, hrest⟩
      · exact .inr hequals
    | number ds => exact Bool.noConfusion hnumber
    | name x => exact Bool.noConfusion hword
    | keyword w => exact Bool.noConfusion hword

theorem eq_nil_of_blank {before : Option Char} {ts : List Lexeme} {cs : List Char}
    (h : Spells before ts cs) (hcs : ∀ ch ∈ cs, Cursor.isSeparator ch = true) : ts = [] := by
  cases ts with
  | nil => rfl
  | cons t ts =>
    have hproper := h.proper List.mem_cons_self
    obtain ⟨ch, chs, htext⟩ := hproper.exists_text
    have hmem : ch ∈ t.text := by simp [htext]
    have hsep := hproper.not_separator ch hmem
    rw [hcs ch ((h.text_infix List.mem_cons_self).subset hmem)] at hsep
    exact Bool.noConfusion hsep

/-- A text spells its lexemes in one way only. -/
theorem unique {before : Option Char} {ts ts' : List Lexeme} {cs : List Char}
    (h : Spells before ts cs) (h' : Spells before ts' cs) : ts = ts' := by
  induction ts generalizing before ts' cs with
  | nil => exact (h'.eq_nil_of_blank h).symm
  | cons t ts ih =>
    cases ts' with
    | nil => exact h.eq_nil_of_blank h'
    | cons t' ts' =>
      obtain ⟨blanks, rest, rfl, hb, hs, hrest⟩ := h
      obtain ⟨blanks', rest', hcs, hb', hs', hrest'⟩ := h'
      have hnext {u : Lexeme} (hu : u.Proper) (r : List Char) :
          (u.text ++ r).head?.any Cursor.isSeparator = false := by
        obtain ⟨ch, chs, htext⟩ := hu.exists_text
        simp [htext, hu.not_separator ch (by simp [htext])]
      -- both spellings start with all of the white space in front
      have hblanks : blanks = blanks' := by
        rw [← takeWhile_append_eq hb (hnext hs.proper rest), hcs,
          takeWhile_append_eq hb' (hnext hs'.proper rest')]
      subst hblanks
      rcases lexeme_eq_or_equals hs hs' (List.append_cancel_left hcs) with
        ⟨rfl, rfl⟩ | rfl | rfl
      · rw [ih hrest hrest']
      · exact (hrest.not_equals_cons hrest').elim
      · exact (hrest'.not_equals_cons hrest).elim

end Spells

end ImpLang
