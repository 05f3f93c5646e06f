import ImpLang.Proofs.Excerpt
import ImpLang.Proofs.Wording

/-! Digits in the place of a name. Behind `procedure` and `call` only a name lets the text be read
on. A rejection at a digit that stands there instead tells which letters were expected, and does not
say that identifiers have no digits. -/
namespace ImpLang

open Token ImpLang.Parser

theorem length_le_of_prefix {run left rest : List Char} {ch : Char}
    (h : run <+: left ++ ch :: rest) (hch : ch ∉ run) : run.length ≤ left.length := by
  by_contra hlt
  have hlonger : left ++ [ch] <+: left ++ ch :: rest := ⟨rest, by simp⟩
  have hstarts := List.prefix_of_prefix_length_le hlonger h (by simp; omega)
  exact hch (hstarts.subset (by simp))

/-- A place in a text at which a digit stands behind a word that asks for a name. -/
structure DigitPlace where
  front : List Char
  word : String
  blanks : List Char
  digit : Char
  rest : List Char
  word_mem : word ∈ namingWords
  apart : front.getLast?.any isWordChar = false
  blanks_ne_nil : blanks ≠ []
  separators : ∀ ch ∈ blanks, Cursor.isSeparator ch = true
  isDigit : Text.isAsciiDigit digit = true

namespace DigitPlace

variable {place : DigitPlace} {c c' : Cursor} {left run rest : List Char}

def tail (place : DigitPlace) : List Char :=
  place.word.toList ++ (place.blanks ++ place.digit :: place.rest)

def text (place : DigitPlace) : List Char :=
  place.front ++ place.tail

def offset (place : DigitPlace) : Nat :=
  place.front.length + place.word.length + place.blanks.length

theorem drop_offset (place : DigitPlace) :
    place.text.drop place.offset = place.digit :: place.rest := by
  have hfront : place.text =
      (place.front ++ (place.word.toList ++ place.blanks)) ++ place.digit :: place.rest := by
    simp only [text, tail, List.append_assoc]
  rw [hfront]
  apply List.drop_left'
  simp only [offset, List.length_append, String.length_toList, Nat.add_assoc]

theorem isAlpha_word (place : DigitPlace) : ∀ ch ∈ place.word.toList, ch.isAlpha = true :=
  isAlpha_of_mem_reservedWords (mem_reservedWords_of_mem_namingWords place.word_mem)

theorem exists_tail (place : DigitPlace) :
    ∃ first firsts, place.tail = first :: firsts ∧ first.isAlpha = true := by
  have hne := ne_nil_of_mem_reservedWords (mem_reservedWords_of_mem_namingWords place.word_mem)
  obtain ⟨first, firsts, hword⟩ := List.exists_cons_of_ne_nil hne
  refine ⟨first, firsts ++ (place.blanks ++ place.digit :: place.rest), ?_,
    place.isAlpha_word first (by simp [hword])⟩
  rw [tail, hword, List.cons_append]

theorem word_end_lt_offset (place : DigitPlace) :
    place.front.length + place.word.length < place.offset := by
  have hpos := List.length_pos_iff.mpr place.blanks_ne_nil
  simp only [offset]
  omega

/-- Behind the word stands white space. -/
theorem head?_blanks (place : DigitPlace) :
    (place.blanks ++ place.digit :: place.rest).head?.any isWordChar = false := by
  obtain ⟨b, bs, hblanks⟩ := List.exists_cons_of_ne_nil place.blanks_ne_nil
  rw [hblanks, List.cons_append, List.head?_cons, Option.any_some]
  exact isWordChar_eq_false_of_isSeparator (place.separators b (by simp [hblanks]))

/-- The cursor stands before the word with so much of the text in between, and no character of words
touches the word. -/
structure Ahead (place : DigitPlace) (c : Cursor) (left : List Char) : Prop where
  rest : c.rest = left ++ place.tail
  position : c.position + left.length = place.front.length
  apart : (left.getLast?.or c.previous).any isWordChar = false

namespace Ahead

theorem start (place : DigitPlace) : place.Ahead (.start place.text) place.front where
  rest := rfl
  position := Nat.zero_add _
  apart := by
    rw [Cursor.start, Option.or_none]
    exact place.apart

theorem advance (h : place.Ahead c left) {count : Nat} (hcount : count ≤ left.length) :
    place.Ahead (c.advance count) (left.drop count) where
  rest := by rw [Cursor.rest_advance, h.rest, List.drop_append_of_le_length hcount]
  position := by
    have hposition := h.position
    rw [Cursor.position_advance, List.length_drop]
    omega
  apart := by
    have happart := h.apart
    have hlast : left.getLast? = (left.drop count).getLast?.or (left.take count).getLast? := by
      rw [← List.getLast?_append, List.take_append_drop]
    rw [hlast, Option.or_assoc] at happart
    rw [Cursor.advance, h.rest, List.take_append_of_le_length hcount]
    exact happart

theorem skip (h : place.Ahead c left) :
    place.Ahead c.skip (left.dropWhile Cursor.isSeparator) := by
  obtain ⟨first, firsts, htail, hfirst⟩ := place.exists_tail
  have hhead : (left.dropWhile Cursor.isSeparator ++ place.tail).head?.any Cursor.isSeparator =
      false := by
    have hdrop := head?_dropWhile_any Cursor.isSeparator left
    cases hleft : left.dropWhile Cursor.isSeparator with
    | nil => simp [htail, not_isSeparator_of_isAlpha hfirst]
    | cons ch cs => simpa [hleft] using hdrop
  have hrest : c.rest = left.takeWhile Cursor.isSeparator ++
      (left.dropWhile Cursor.isSeparator ++ place.tail) := by
    rw [← List.append_assoc, List.takeWhile_append_dropWhile, h.rest]
  have hrun : c.rest.takeWhile Cursor.isSeparator = left.takeWhile Cursor.isSeparator := by
    rw [hrest, takeWhile_append_eq (fun ch hch => List.mem_takeWhile_imp hch) hhead]
  have hahead := h.advance (List.takeWhile_prefix (p := Cursor.isSeparator)).length_le
  have hdrop : left.drop (left.takeWhile Cursor.isSeparator).length =
      left.dropWhile Cursor.isSeparator := by
    calc
      _ = (left.takeWhile Cursor.isSeparator ++ left.dropWhile Cursor.isSeparator).drop
          (left.takeWhile Cursor.isSeparator).length := by rw [List.takeWhile_append_dropWhile]
      _ = _ := List.drop_left
  rw [hdrop] at hahead
  rw [Cursor.skip, hrun]
  exact hahead

theorem position_le (h : place.Ahead c left) : c.position ≤ place.front.length := by
  have hposition := h.position
  omega

/-- What has no letters ends before the word. -/
theorem length_le_of_not_isAlpha (h : place.Ahead c left) (hrun : run <+: c.rest)
    (hplain : ∀ ch ∈ run, ch.isAlpha = false) : run.length ≤ left.length := by
  obtain ⟨first, firsts, htail, hfirst⟩ := place.exists_tail
  rw [h.rest, htail] at hrun
  refine length_le_of_prefix hrun fun hmem => ?_
  rw [hplain first hmem] at hfirst
  exact Bool.noConfusion hfirst

/-- Letters end before the word or are letters of the word. -/
theorem letters_cases (h : place.Ahead c left) (hrun : run <+: c.rest)
    (hletters : ∀ ch ∈ run, ch.isAlpha = true) :
    run.length ≤ left.length ∨ left = [] ∧ run <+: place.word.toList := by
  rcases Nat.lt_or_ge left.length run.length with hlt | hle
  · right
    rw [h.rest] at hrun
    have hleft : left <+: run :=
      List.prefix_of_prefix_length_le (List.prefix_append _ _) hrun hlt.le
    -- the last letter before the word would touch it
    have hnil : left = [] := by
      by_contra hne
      have hlast := h.apart
      rw [List.getLast?_eq_some_getLast hne, Option.some_or, Option.any_some,
        isWordChar_of_isAlpha (hletters _ (hleft.subset (List.getLast_mem hne)))] at hlast
      exact Bool.noConfusion hlast
    subst hnil
    obtain ⟨b, bs, hblanks⟩ := List.exists_cons_of_ne_nil place.blanks_ne_nil
    rw [List.nil_append, tail] at hrun
    have hshort : run.length ≤ place.word.toList.length := by
      rw [hblanks, List.cons_append] at hrun
      refine length_le_of_prefix hrun fun hmem => ?_
      have hb := place.separators b (by simp [hblanks])
      rw [not_isSeparator_of_isAlpha (hletters b hmem)] at hb
      exact Bool.noConfusion hb
    exact ⟨rfl, List.prefix_of_prefix_length_le hrun (List.prefix_append _ _) hshort⟩
  · exact .inl hle

/-- A whole run of letters ends before the word or is the word. -/
theorem word_cases (h : place.Ahead c left) {x : String} (hx : c.rest = x.toList ++ rest)
    (hletters : ∀ ch ∈ x.toList, ch.isAlpha = true) (hrest : rest.head?.any Char.isAlpha = false) :
    x.length ≤ left.length ∨
      left = [] ∧ x = place.word ∧ rest = place.blanks ++ place.digit :: place.rest := by
  rcases h.letters_cases ⟨rest, hx.symm⟩ hletters with hle | ⟨rfl, -⟩
  · exact .inl (by rwa [String.length_toList] at hle)
  · right
    rw [h.rest, List.nil_append, tail] at hx
    have hword := takeWhile_append_eq place.isAlpha_word
      (any_eq_false_of_imp (fun _ => isWordChar_of_isAlpha) place.head?_blanks)
    rw [hx, takeWhile_append_eq hletters hrest] at hword
    obtain rfl := String.toList_injective hword
    exact ⟨rfl, rfl, (List.append_cancel_left hx).symm⟩

/-- A keyword that is read ends before the word or is the word. -/
theorem keyword_cases (h : place.Ahead c left) {w : String} (hw : w ∈ reservedWords)
    (hk : keyword w c = .ok ((), c')) : (∃ left', place.Ahead c' left') ∨
      w = place.word ∧ c'.position = place.front.length + place.word.length ∧
        c'.rest = place.blanks ++ place.digit :: place.rest := by
  obtain ⟨⟨rest, hr, -, hafter⟩, rfl⟩ := keyword_eq_ok_iff.mp hk
  have hrest := any_eq_false_of_imp (fun _ => isWordChar_of_isAlpha) hafter
  rcases h.skip.word_cases hr (isAlpha_of_mem_reservedWords hw) hrest with
    hle | ⟨hnil, rfl, hblanks⟩
  · exact .inl ⟨_, h.skip.advance hle⟩
  · refine .inr ⟨rfl, ?_, ?_⟩
    · have hposition := h.skip.position
      rw [hnil, List.length_nil, Nat.add_zero] at hposition
      rw [Cursor.position_advance, hposition]
    · rw [Cursor.rest_advance, hr, ← String.length_toList, List.drop_left, hblanks]

/-- The word is never read as a name: it stands there as a keyword. -/
theorem identifier_moves (h : place.Ahead c left) {x : String}
    (hx : identifier c = .ok (x, c')) : ∃ left', place.Ahead c' left' := by
  obtain ⟨⟨rest, hr, -, hletters, hrest, htouch⟩, rfl⟩ := identifier_eq_ok_iff_letters.mp hx
  rcases h.skip.word_cases hr hletters hrest with hle | ⟨hnil, rfl, rfl⟩
  · exact ⟨_, h.skip.advance hle⟩
  · have hbefore := h.skip.apart
    rw [hnil, List.getLast?_nil, Option.none_or] at hbefore
    have htouch := htouch (mem_reservedWords_of_mem_namingWords place.word_mem)
    rw [hbefore, place.head?_blanks] at htouch
    simp at htouch

end Ahead

/-- Behind the word no name is read, and its letters are missed at the digit. -/
theorem identifier_fails (hposition : c.position = place.front.length + place.word.length)
    (hrest : c.rest = place.blanks ++ place.digit :: place.rest) :
    identifier c = .error (.soft place.offset "Expected W:(A-Za-z)") := by
  have hdigit := isAlpha_eq_false_of_isAsciiDigit place.isDigit
  have hskip : c.skip = ⟨c.position + place.blanks.length, place.blanks.getLast?.or c.previous,
      place.digit :: place.rest⟩ :=
    Cursor.skip_eq hrest place.separators
      (by simp [isSeparator_eq_false_of_isAsciiDigit place.isDigit])
  have hreserved : atReserved c = false := by
    rw [Bool.eq_false_iff]
    intro hat
    obtain ⟨w, hw, c', hk⟩ := atReserved_iff.mp hat
    have hsoft := keyword_soft_of_head hw (c := c) (by simp [hskip, hdigit])
    obtain ⟨offset, message, hsoft⟩ := hsoft
    rw [hk] at hsoft
    cases hsoft
  unfold identifier
  simp [hreserved, hskip, hdigit, hposition, offset]

/-- Before the digit anything may fail, and at the digit only what misses the letters of a name. -/
def Allows (place : DigitPlace) : Failure → Prop
  | .soft offset _ => offset < place.offset
  | .fatal offset message => offset < place.offset ∨ message = "Expected W:(A-Za-z)"
  | .tooDeep | .literalTooLong _ => True

/-- Parsers that start before the word stay before it, unless they fail at the digit. -/
def law (place : DigitPlace) : Law where
  moves c c' := (∃ left, place.Ahead c left) → ∃ left, place.Ahead c' left
  fails c e := (∃ left, place.Ahead c left) → place.Allows e
  refl _ h := h
  trans h h' hc := h' (h hc)
  back hmoves hfails hc := hfails (hmoves hc)
  renamed h _ _ hc := h hc
  committed h hc := .inl (h hc)

theorem allows_soft {offset : Nat} {message : String}
    (hle : offset ≤ place.front.length + place.word.length) :
    place.Allows (.soft offset message) :=
  hle.trans_lt place.word_end_lt_offset

namespace Ahead

theorem position_le_word_end (h : place.Ahead c left) :
    c.position ≤ place.front.length + place.word.length :=
  h.position_le.trans (Nat.le_add_right _ _)

theorem keyword_allows (h : place.Ahead c left) {w : String} (hw : w ∈ reservedWords)
    {e : Failure} (hk : keyword w c = .error e) : place.Allows e := by
  have hskip := h.skip.position_le_word_end
  rcases keyword_eq_error hk with rfl | rfl | ⟨hstarts, rfl⟩
  · exact allows_soft hskip
  · exact allows_soft ((Nat.sub_le _ _).trans hskip)
  · -- the keyword stands there, so it is at most the word
    have hposition := h.skip.position
    apply allows_soft
    rcases h.skip.letters_cases hstarts (isAlpha_of_mem_reservedWords hw) with hle | ⟨hnil, hle⟩
    · rw [String.length_toList] at hle
      omega
    · have hlength := hle.length_le
      rw [String.length_toList, String.length_toList] at hlength
      rw [hnil, List.length_nil] at hposition
      omega

end Ahead

section Tokens

variable (place : DigitPlace)

theorem obeys_literal {s : String} (hs : s ∈ symbols) : Obeys place.law (literal s) := by
  constructor
  · rintro c u c' h ⟨left, hc⟩
    obtain ⟨⟨rest, hr⟩, rfl⟩ := literal_eq_ok_iff.mp h
    have hplain (ch : Char) (hch : ch ∈ s.toList) : ch.isAlpha = false := by
      have hword := (isWordChar_eq_false_of_mem_symbols hs ch hch).1
      rw [Bool.eq_false_iff]
      intro ha
      rw [isWordChar_of_isAlpha ha] at hword
      exact Bool.noConfusion hword
    have hle := hc.skip.length_le_of_not_isAlpha ⟨rest, hr.symm⟩ hplain
    rw [String.length_toList] at hle
    exact ⟨_, hc.skip.advance hle⟩
  · rintro c e h ⟨left, hc⟩
    cases literal_eq_error h
    exact allows_soft hc.skip.position_le_word_end

theorem obeys_keyword {w : String} (hw : w ∈ plainWords) : Obeys place.law (keyword w) := by
  obtain ⟨hreserved, hplain⟩ := mem_plainWords_iff.mp hw
  constructor
  · rintro c u c' h ⟨left, hc⟩
    rcases hc.keyword_cases hreserved h with hahead | ⟨rfl, -⟩
    · exact hahead
    · exact absurd place.word_mem hplain
  · rintro c e h ⟨left, hc⟩
    exact hc.keyword_allows hreserved h

theorem obeys_identifier : Obeys place.law identifier := by
  constructor
  · rintro c x c' h ⟨left, hc⟩
    exact hc.identifier_moves h
  · rintro c e h ⟨left, hc⟩
    rcases identifier_eq_error h with rfl | rfl
    · exact allows_soft hc.position_le_word_end
    · exact allows_soft hc.skip.position_le_word_end

theorem obeys_integer : Obeys place.law integer := by
  constructor
  · rintro c ds c' h ⟨left, hc⟩
    obtain ⟨⟨hrun, -⟩, rfl⟩ := integer_eq_ok_iff.mp h
    obtain ⟨rest, hr, hdigits, -⟩ := takeWhile_eq_iff.mp hrun
    have hle := hc.skip.length_le_of_not_isAlpha ⟨rest, hr.symm⟩ fun ch hch =>
      isAlpha_eq_false_of_isAsciiDigit (hdigits ch hch)
    exact ⟨_, hc.skip.advance hle⟩
  · rintro c e h ⟨left, hc⟩
    cases integer_eq_error h
    exact allows_soft hc.skip.position_le_word_end

theorem obeys_endOfText : Obeys place.law endOfText := by
  constructor
  · rintro c u c' h ⟨left, hc⟩
    obtain ⟨-, rfl⟩ := endOfText_eq_ok_iff.mp h
    exact ⟨_, hc.skip⟩
  · rintro c e h ⟨left, hc⟩
    cases endOfText_eq_error h
    exact allows_soft hc.skip.position_le_word_end

/-- A word that asks for a name is followed by one, or it is the word before the digit: then the
name is missed there, and nothing else can be read. -/
theorem obeys_naming {α : Type} {w : String} (hw : w ∈ namingWords) {p : String → Parser α}
    (hp : ∀ x, Obeys place.law (p x)) :
    Obeys place.law (keyword w >>= fun _ => commit (identifier >>= p)) := by
  have hreserved := mem_reservedWords_of_mem_namingWords hw
  have hname : Obeys place.law (commit (identifier >>= p)) :=
    .commit ((obeys_identifier place).bind hp)
  constructor
  · rintro c a c' h ⟨left, hc⟩
    obtain ⟨u, d, hk, hd⟩ := bind_eq_ok_iff.mp h
    -- behind the word before the digit no name is read
    rcases hc.keyword_cases hreserved hk with hahead | ⟨-, hposition, hrest⟩
    · exact hname.moves hd hahead
    · rw [commit_eq_ok_iff, bind_of_error (identifier_fails hposition hrest)] at hd
      cases hd
  · rintro c e h ⟨left, hc⟩
    cases hk : keyword w c with
    | error e' =>
      rw [bind_of_error hk] at h
      cases h
      exact hc.keyword_allows hreserved hk
    | ok r =>
      obtain ⟨u, d⟩ := r
      rw [bind_of_ok hk] at h
      rcases hc.keyword_cases hreserved hk with hahead | ⟨-, hposition, hrest⟩
      · exact hname.fails h hahead
      · have hmissed : (identifier >>= p) d = _ :=
          bind_of_error (identifier_fails hposition hrest)
        simp only [commit, hmissed] at h
        cases h
        exact .inr rfl

theorem tokens_law : place.law.Tokens where
  literal _ hs := obeys_literal place hs
  keyword _ hw := obeys_keyword place hw
  identifier := obeys_identifier place
  naming _ hw _ _ hp := obeys_naming place hw hp
  intLiteral := Grammar.obeys_intLiteral (obeys_integer place) fun _ _ _ => trivial
  tooDeep _ _ := trivial

end Tokens

/-- A text that is rejected at the digit is rejected for want of letters. -/
theorem message_eq (place : DigitPlace) {nesting : Nat} {text filename : String} {report : Report}
    (h : Rejects nesting text filename report) (htext : Text.expandTabs text.toList = place.text)
    (hlocation : report.location = place.offset) : ∃ offset,
      report = .ofFailure text place.text filename offset "Expected W:(A-Za-z)" := by
  obtain ⟨offset, message, hfails, rfl⟩ := h.allowed (tokens_law place) (obeys_endOfText place)
  rw [htext] at hfails ⊢
  have hoffset : offset = place.offset := Int.ofNat_inj.mp hlocation
  rcases hfails ⟨_, .start place⟩ with hlt | rfl
  · omega
  · exact ⟨offset, rfl⟩

end DigitPlace

namespace Report

/-- A digit is not trimmed, so it stands first in what is shown. -/
theorem toList_excerpt_digit {ch : Char} (hch : Text.isAsciiDigit ch = true) (cs : List Char) :
    ∃ more, (excerpt (ch :: cs)).toList = '\'' :: ch :: more := by
  have hblank := Text.isBlank_eq_false_of_isWordChar (isWordChar_of_isAsciiDigit hch)
  have hten : (String.ofList ((ch :: cs).take 10)).toList = [] ++ ch :: cs.take 9 :=
    String.toList_ofList
  have htrim := Text.toList_trim hten (by simp) hblank
  have hne : Text.trim (String.ofList ((ch :: cs).take 10)) ≠ "" := by
    intro hempty
    rw [hempty] at htrim
    cases htrim
  rw [excerpt, if_neg hne, String.toList_append, String.toList_append, htrim]
  exact ⟨_, rfl⟩

/-- Where letters are missed there are no hints, unless an equals sign is shown first. -/
theorem suggest_letters {got : String} (hgot : ¬ "'=".toList <+: got.toList) :
    suggest got ["W:(A-Za-z)"] = [] := by
  have hequals : "'=".toList.isPrefixOf got.toList = false := by
    rw [Bool.eq_false_iff]
    exact fun h => hgot (List.isPrefixOf_iff_prefix.mp h)
  have hwanted : ∀ needle ∈ ["';'", "'fi'", "'end'", "'od'", "identifier"],
      occursIn needle (" ".intercalate ["W:(A-Za-z)"]) = false := by decide +kernel
  rw [List.eq_nil_iff_forall_not_mem]
  intro text hmem
  obtain ⟨hint, hhint, happlies, -⟩ := mem_suggest_iff.mp hmem
  simp only [hints, List.mem_cons, List.not_mem_nil, or_false] at hhint
  rcases hhint with rfl | rfl | rfl | rfl | rfl | rfl
  all_goals
    simp only [hequals, hwanted, List.mem_cons, true_or, or_true, Bool.false_and, Bool.and_false,
      Bool.false_eq_true] at happlies

theorem subset_of_lineAt? {text : String} {number : Int} {line : List Char}
    (h : lineAt? text number = some line) : line ⊆ text.toList := by
  unfold lineAt? at h
  split_ifs at h
  exact Text.subset_of_mem_splitLines (List.mem_of_getElem? h)

end Report

/-- Without tabs the report shows the digit. -/
theorem DigitPlace.exists_got (place : DigitPlace) {text filename message : String}
    {report : Report} (htext : Text.expandTabs text.toList = place.text)
    (hlocation : report.location = place.offset) (htab : '\t' ∉ text.toList)
    (hreport : ∃ offset, report = .ofFailure text place.text filename offset message) :
    ∃ got more, report.got = some got ∧ got.toList = '\'' :: place.digit :: more := by
  obtain ⟨offset, hreport⟩ := hreport
  rw [← htext] at hreport
  obtain ⟨line, hline, hexpand, -, hgot, -⟩ := Report.ofFailure_shows hreport
  have hplain : '\t' ∉ line := fun hmem => htab (Report.subset_of_lineAt? hline hmem)
  have hne : place.digit ≠ '\n' := by
    intro hbreak
    have hdigit := place.isDigit
    rw [hbreak] at hdigit
    exact absurd hdigit (by decide)
  have hafter : report.after text = place.digit :: place.rest.takeWhile (· != '\n') := by
    rw [Report.after, hlocation, htext, Text.lineFrom, Int.toNat_natCast, drop_offset,
      List.takeWhile_cons_of_pos (by simpa using hne)]
  rw [Report.excerpt_of_no_tab hexpand fun hmem => hplain (List.mem_of_mem_take hmem), hafter]
    at hgot
  obtain ⟨more, hmore⟩ := Report.toList_excerpt_digit place.isDigit _
  exact ⟨_, more, hgot, hmore⟩

/-- No rejection gives the hint that identifiers have no digits. Where a name is required and a
digit stands, it is reported by the letters that were expected, and with no hint at all unless a tab
keeps the report from showing the digit. -/
theorem digit_for_name (nesting : Nat) (text filename : String) (report : Report)
    (h : Rejects nesting text filename report) :
    Report.lettersHint ∉ report.suggestions ∧
      ∀ place : DigitPlace, Text.expandTabs text.toList = place.text →
        report.location = place.offset →
        report.message = "Expected W:(A-Za-z)" ∧ report.expected = ["W:(A-Za-z)"] ∧
          ('\t' ∉ text.toList → report.suggestions = []) := by
  refine ⟨h.lettersHint_not_mem, fun place htext hlocation => ?_⟩
  have hreport := place.message_eq h htext hlocation
  have hshown := fun htab => place.exists_got htext hlocation htab hreport
  obtain ⟨offset, rfl⟩ := hreport
  refine ⟨rfl, rfl, fun htab => ?_⟩
  obtain ⟨got, more, hgot, hmore⟩ := hshown htab
  cases hgot
  apply Report.suggest_letters
  intro hequals
  rw [hmore] at hequals
  obtain ⟨-, hequals⟩ := List.cons_prefix_cons.mp hequals
  have hdigit := place.isDigit
  rw [← (List.cons_prefix_cons.mp hequals).1] at hdigit
  exact absurd hdigit (by decide)

/-- A declaration inside a sequence, on the line below its keyword, named by a number. -/
def numberedDeclaration : DigitPlace where
  front := "do x := 1;\n ".toList
  word := "procedure"
  blanks := "\n\n  ".toList
  digit := '2'
  rest := "f(x) quit; endproc od;".toList
  word_mem := by decide
  apart := by decide
  blanks_ne_nil := by decide
  separators := List.all_eq_true.mp (by decide)
  isDigit := by decide

theorem digit_for_name_numbered : ∃ report,
    Rejects 9 "do x := 1;\n procedure\n\n  2f(x) quit; endproc od;" standardInput report ∧
    report.location = 25 ∧ report.line = 4 ∧ report.column = 3 ∧
    Report.lettersHint ∉ report.suggestions ∧ report.message = "Expected W:(A-Za-z)" ∧
    report.suggestions = [] := by
  have h : Rejects 9 "do x := 1;\n procedure\n\n  2f(x) quit; endproc od;" standardInput _ :=
    ⟨.inr rfl, by decide⟩
  obtain ⟨hhint, hplace⟩ := digit_for_name 9 _ standardInput _ h
  obtain ⟨hmessage, -, hsuggestions⟩ := hplace numberedDeclaration (by decide +kernel) rfl
  exact ⟨_, h, rfl, rfl, rfl, hhint, hmessage, hsuggestions (by decide)⟩

/-- The hint is missing where the digit is seen first. -/
theorem not_every_digit_for_name_hinted : ¬ ∀ nesting text filename report (place : DigitPlace),
    parseStatement nesting text filename = .error (.rejected report) →
    Text.expandTabs text.toList = place.text → report.location = place.offset →
    Report.lettersHint ∈ report.suggestions := by
  intro hhinted
  have hrejected : parseStatement 9 "call 1();" standardInput = .error (.rejected _) := rfl
  let place : DigitPlace := ⟨[], "call", [' '], '1', "();".toList, by decide, by decide, by decide,
    List.all_eq_true.mp (by decide), by decide⟩
  exact absurd (hhinted 9 _ standardInput _ place hrejected (by decide) rfl) (by decide)

end ImpLang
