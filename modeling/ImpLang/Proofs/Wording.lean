import ImpLang.Proofs.FailurePlace

/-! What reports speak of. The hint that identifiers have no digits is for rejections that speak of
identifiers, and no failure does: a name that is missed is reported by the letters it is made of. -/
namespace ImpLang

open Token ImpLang.Parser

namespace Report

def lettersHint : String :=
  "Identifiers contain letters only"

def speaksOfIdentifiers (message : String) : Bool :=
  occursIn "identifier" (" ".intercalate (expectedBy message))

theorem speaksOfIdentifiers_eq {message : String} {wanted : List Char}
    (h : message.toList = "Expected ".toList ++ wanted) :
    speaksOfIdentifiers message = occursInChars "identifier".toList wanted := by
  have hexpected : expectedBy message = [String.ofList wanted] := by
    rw [expectedBy, h, if_pos (List.isPrefixOf_iff_prefix.mpr (List.prefix_append _ _))]
    rw [← String.length_toList, List.drop_left]
  have hwanted : (String.ofList wanted).toList = wanted := String.toList_ofList
  rw [speaksOfIdentifiers, occursIn, hexpected, String.intercalate_singleton, hwanted]

theorem mem_suggest_iff {got text : String} {expected : List String} :
    text ∈ suggest got expected ↔
      ∃ hint ∈ hints, hint.applies got (" ".intercalate expected) = true ∧ hint.text = text := by
  simp [suggest, and_assoc]

/-- The hint about letters is for digits where an identifier was expected by that word. -/
theorem lettersHint_mem_suggest_iff {got : String} {expected : List String} :
    lettersHint ∈ suggest got expected ↔ got.toList.any Text.isDigit = true ∧
      occursIn "identifier" (" ".intercalate expected) = true := by
  rw [mem_suggest_iff]
  simp [hints, lettersHint]

end Report

def Failure.message? : Failure → Option String
  | .soft _ message | .fatal _ message => some message
  | .tooDeep | .literalTooLong _ => none

def wordingLaw : Law where
  moves _ _ := True
  fails _ e := ∀ message ∈ e.message?, Report.speaksOfIdentifiers message = false
  refl _ := trivial
  trans _ _ := trivial
  back _ h := h
  renamed _ message' hmessage message hmem := by
    have htable : ∀ m ∈ renamings, Report.speaksOfIdentifiers m = false := by decide +kernel
    cases hmem
    exact htable _ hmessage
  committed h := h

theorem wordingLaw_fails_soft {c : Cursor} {offset : Nat} {message : String}
    (h : Report.speaksOfIdentifiers message = false) :
    wordingLaw.fails c (.soft offset message) := by
  intro message' hmem
  cases hmem
  exact h

namespace Token

theorem obeys_wordingLaw_literal {s : String} (hs : s ∈ symbols) :
    Obeys wordingLaw (literal s) := by
  have htable : ∀ s ∈ symbols,
      Report.speaksOfIdentifiers ("Expected " ++ inQuotes s) = false := by decide +kernel
  refine ⟨fun _ _ _ _ => trivial, fun c e h => ?_⟩
  cases literal_eq_error h
  exact wordingLaw_fails_soft (htable s hs)

theorem obeys_wordingLaw_keyword {w : String} (hw : w ∈ reservedWords) :
    Obeys wordingLaw (keyword w) := by
  let suffixes := ["", ", keyword was immediately preceded by keyword character",
    ", keyword was immediately followed by keyword character"]
  have htable : ∀ w ∈ reservedWords, ∀ suffix ∈ suffixes,
      Report.occursInChars "identifier".toList
        ("Keyword '".toList ++ (w.toList ++ ("'".toList ++ suffix.toList))) = false := by
    decide +kernel
  have hsilent (suffix : String) (hsuffix : suffix ∈ suffixes) :
      Report.speaksOfIdentifiers ("Expected Keyword " ++ inQuotes w ++ suffix) = false := by
    have hmessage : ("Expected Keyword " ++ inQuotes w ++ suffix).toList = "Expected ".toList ++
        ("Keyword '".toList ++ (w.toList ++ ("'".toList ++ suffix.toList))) := by
      simp [inQuotes]
    rw [Report.speaksOfIdentifiers_eq hmessage]
    exact htable w hw suffix hsuffix
  refine ⟨fun _ _ _ _ => trivial, fun c e h => ?_⟩
  rcases keyword_eq_error h with rfl | rfl | ⟨-, rfl⟩
  · have hplain := hsilent "" (by simp [suffixes])
    rw [String.append_empty] at hplain
    exact wordingLaw_fails_soft hplain
  · exact wordingLaw_fails_soft (hsilent _ (by simp [suffixes]))
  · exact wordingLaw_fails_soft (hsilent _ (by simp [suffixes]))

theorem obeys_wordingLaw_identifier : Obeys wordingLaw identifier := by
  refine ⟨fun _ _ _ _ => trivial, fun c e h => ?_⟩
  rcases identifier_eq_error h with rfl | rfl
  · exact wordingLaw_fails_soft (by decide +kernel)
  · exact wordingLaw_fails_soft (by decide +kernel)

theorem obeys_wordingLaw_integer : Obeys wordingLaw integer := by
  refine ⟨fun _ _ _ _ => trivial, fun c e h => ?_⟩
  cases integer_eq_error h
  exact wordingLaw_fails_soft (by decide +kernel)

theorem obeys_wordingLaw_endOfText : Obeys wordingLaw endOfText := by
  refine ⟨fun _ _ _ _ => trivial, fun c e h => ?_⟩
  cases endOfText_eq_error h
  exact wordingLaw_fails_soft (by decide +kernel)

end Token

theorem tokens_wordingLaw : wordingLaw.Tokens := by
  have hinteger : Obeys wordingLaw Grammar.intLiteral :=
    Grammar.obeys_intLiteral obeys_wordingLaw_integer fun digits c message hmem => by cases hmem
  refine .of_each (fun s hs => obeys_wordingLaw_literal hs)
    (fun w hw => obeys_wordingLaw_keyword hw) obeys_wordingLaw_identifier hinteger ?_
  intro c message hmem
  cases hmem

/-- No rejection is reported with the hint that identifiers have no digits. -/
theorem Rejects.lettersHint_not_mem {nesting : Nat} {text filename : String} {report : Report}
    (h : Rejects nesting text filename report) : Report.lettersHint ∉ report.suggestions := by
  obtain ⟨offset, message, hfails, rfl⟩ := h.allowed tokens_wordingLaw obeys_wordingLaw_endOfText
  intro hhint
  have hspeaks := (Report.lettersHint_mem_suggest_iff.mp hhint).2
  have hsilent : Report.speaksOfIdentifiers message = false := hfails message rfl
  rw [Report.speaksOfIdentifiers, hspeaks] at hsilent
  exact Bool.noConfusion hsilent

end ImpLang
