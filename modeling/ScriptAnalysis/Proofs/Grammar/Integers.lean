import Mathlib.Data.Int.ConditionallyCompleteOrder
import Mathlib.Data.Nat.Digits.Defs
import Mathlib.Order.Interval.Set.Basic
import ScriptAnalysis.Proofs.Grammar.RoundTrip

/-!
Integer literals. Digits, with a minus sign before them or without, are read as their decimal value if it has
64 bits, and otherwise rejected at the first digit. Behind an operand a minus sign is no part of a literal but
subtracts what is read behind it (`Parser.expr_integer`).
-/
namespace ScriptAnalysis

namespace Numeral

variable {digits : List Char}

def sign (negative : Bool) : List Char := if negative then ['-'] else []

/-- The decimal value of digits behind a sign. -/
def decimal (negative : Bool) (digits : List Char) : Int :=
  let n : Nat := Nat.ofDigits 10 (digits.reverse.map fun c => c.toNat - '0'.toNat)
  if negative then -n else n

theorem value_eq_ofDigits (digits : List Char) :
    value digits = Nat.ofDigits 10 (digits.reverse.map fun c => c.toNat - '0'.toNat) := by
  induction digits using List.reverseRecOn with
  | nil => rfl
  | append_singleton digits c ih =>
    rw [List.reverse_append, List.reverse_singleton, List.singleton_append, List.map_cons,
      Nat.ofDigits_cons, ← ih, value, List.foldl_append]
    exact Nat.add_comm _ _

/-- Digits behind a sign are an integer if their value has 64 bits. -/
theorem integer?_digits (hne : digits ≠ []) (hdigits : ∀ c ∈ digits, isDigit c) (negative : Bool) :
    integer? (sign negative ++ digits) = if decimal negative digits ∈ Set.Icc (-2 ^ 63) (2 ^ 63 - 1) then
      some (decimal negative digits) else none := by
  have hsplit : splitSign (sign negative ++ digits) = (negative, digits) := by
    cases negative with
    | true => rfl
    | false => exact splitSign_digits hdigits
  have hnatural : natural? digits = some (value digits) := by
    rw [natural?, List.all_eq_true.2 hdigits, List.isEmpty_eq_false_iff.2 hne]
    rfl
  have hvalue : signed negative (value digits) = decimal negative digits := by
    rw [value_eq_ofDigits]
    rfl
  simp only [integer?, hsplit, hnatural, hvalue]
  rfl

end Numeral

/-- The tokens at the first cursor are a sign and a numeral of the digits, which the second is at. -/
inductive Cursor.IntegerAt (digits : List Char) : Bool → Cursor → Cursor → Prop
  | positive {c : Cursor} (h : c.kind = .number) (hvalue : c.current.value = .ofList digits) :
    Cursor.IntegerAt digits false c c
  | negative {c : Cursor} (hdash : c.kind = .dash) (h : c.next.kind = .number)
    (hvalue : c.next.current.value = .ofList digits) : Cursor.IntegerAt digits true c c.next

namespace Parser

variable {digits : List Char} {negative : Bool} {p : Power} {c c₀ a : Cursor} {left : Expr}

theorem point_notMem (hdigits : ∀ x ∈ digits, Numeral.isDigit x) {text : String}
    (h : text = .ofList digits) : '.' ∉ text.toList := by
  rw [h, String.toList_ofList]
  exact fun hmem => absurd (hdigits _ hmem) (by decide)

/-- A literal whose value has 64 bits is read as that value. -/
theorem expr_eq_int (hne : digits ≠ []) (hdigits : ∀ x ∈ digits, Numeral.isDigit x) (hp : p < .call)
    (h : Cursor.IntegerAt digits negative c a)
    (hv : Numeral.decimal negative digits ∈ Set.Icc (-2 ^ 63) (2 ^ 63 - 1))
    (hends : ∀ q, a.next.kind.extensionPower? = some q → ¬ p < q) :
    expr p c = .ok (.int (c.cover a.next) (Numeral.decimal negative digits)) a.next.fresh := by
  have hinteger := Numeral.integer?_digits hne hdigits negative
  rw [if_pos hv] at hinteger
  have hat : (Expr.int (c.cover a.next) (Numeral.decimal negative digits)).At c a.next.fresh := by
    cases h with
    | positive h hvalue =>
      refine .int h (point_notMem hdigits hvalue) ?_
      rwa [hvalue, String.toList_ofList]
    | negative hdash h hvalue =>
      refine .negativeInt hdash h (point_notMem hdigits hvalue) ?_
      rwa [hvalue, String.toList_ofList]
  exact (expr_eq_ok_iff hp).2 ⟨hat, by simp [Expr.lastPower?], hends, fun _ _ hnamed => by cases hnamed⟩

/-- A literal with another value is rejected at its digits. -/
theorem exprWithin_eq_badNumber (hne : digits ≠ []) (hdigits : ∀ x ∈ digits, Numeral.isDigit x)
    {depth : Nat} (hdepth : 0 < depth) (h : Cursor.IntegerAt digits negative c a)
    (hv : Numeral.decimal negative digits ∉ Set.Icc (-2 ^ 63) (2 ^ 63 - 1)) :
    exprWithin depth p c = .error (.rejected (.atPosition
      (.badNumber (.ofList (Numeral.sign negative ++ digits))) a.position)) a.next := by
  have hinteger := Numeral.integer?_digits hne hdigits negative
  rw [if_neg hv] at hinteger
  obtain ⟨depth, rfl⟩ := Nat.exists_eq_add_of_lt hdepth
  rw [Nat.zero_add, exprWithin, expression]
  refine run_fail ?_
  cases h with
  | positive h hvalue =>
    rw [run_positive h, run_badInt false _ (point_notMem hdigits hvalue), hvalue]
    · rfl
    · rwa [hvalue, String.toList_ofList]
  | negative hdash h hvalue =>
    rw [run_negative hdash h, run_badInt true _ (point_notMem hdigits hvalue), hvalue]
    · simp only [↓reduceIte, Numeral.sign, String.ofList_append]
      rfl
    · rwa [hvalue, String.toList_ofList]

/-- Behind an operand a minus sign subtracts what is read behind it. -/
theorem expr_eq_subtract (hp : p < .additive) (hleft : left.At c₀ c) (hpower : ¬ left.power < .additive)
    (hdash : c.kind = .dash) {right : Expr} {e : Cursor} (h : expr .additive c.next = .ok right e)
    (hends : ∀ q, e.kind.extensionPower? = some q → ¬ p < q) :
    expr p c₀ = .ok (.binary (c₀.cover e) .subtract left right) e.fresh := by
  have hright := (expr_eq_ok_iff (by decide)).1 h
  have hrightPower : .additive < right.power :=
    hright.binds.elim id fun hge => Nat.lt_of_lt_of_le (by decide) (Nat.not_lt.1 hge)
  have hcall : p < .call := hp.trans (by decide : Power.additive.level < Power.call.level)
  refine (expr_eq_ok_iff hcall).2 ⟨?_, ?_, hends, fun _ => hright.less (by decide)⟩
  · exact .binary hleft hdash hright.read hpower hrightPower (by simp)
  · rintro q ⟨⟩
    exact hp

/-- So the digits behind it are rejected without the sign. -/
theorem expr_eq_badNumber (hne : digits ≠ []) (hdigits : ∀ x ∈ digits, Numeral.isDigit x)
    (hp : p < .additive) (hleft : left.At c₀ c) (hpower : ¬ left.power < .additive)
    (hdash : c.kind = .dash) (h : Cursor.IntegerAt digits false c.next c.next)
    (hv : Numeral.decimal false digits ∉ Set.Icc (-2 ^ 63) (2 ^ 63 - 1)) :
    expr p c₀ = .error (.rejected (.atPosition (.badNumber (.ofList digits)) c.next.position))
      c.next.next := by
  have hcall : p < .call := hp.trans (by decide : Power.additive.level < Power.call.level)
  have hq : c.kind.extensionPower? = some .additive := by rw [hdash]; rfl
  have hbegun := hleft.begun hq hcall hp (Nat.lt_of_lt_of_le (by decide) (Nat.not_lt.1 hpower)) hpower
    (by simp [hdash])
  obtain ⟨fuel, hfuel, hrun⟩ := run_begun (runsBehind_exprWithin c₀) hcall hbegun
  have hbad := exprWithin_eq_badNumber (p := .additive) hne hdigits
    (Nat.zero_lt_of_lt hleft.before.remaining_lt) h hv
  obtain ⟨fuel, rfl⟩ := Nat.exists_eq_add_of_lt hfuel
  show exprWithin (c₀.remaining + 1) p c₀ = _
  rw [exprWithin, hrun, repeatWithin]
  refine run_fail ?_
  rw [extensionStep, run_get, if_neg (by simp [Cursor.atTemplateCall, hdash]), hq]
  simp only [if_pos hp]
  refine run_fail ?_
  rw [hdash]
  show binary (exprWithin c₀.remaining) left .subtract .additive c = _
  rw [binary, run_discard_advance]
  exact run_fail hbad

/-- A text of a sign and digits is read as their tokens. -/
theorem tokenize_integer (hne : digits ≠ []) (hdigits : ∀ x ∈ digits, Numeral.isDigit x) (negative : Bool)
    (file : String) :
    ∃ tokens a, Token.tokenize (.ofList (Numeral.sign negative ++ digits)) file = .ok tokens ∧
      Cursor.IntegerAt digits negative (.start tokens file) a ∧
      a.position = .ofIndex (if negative then 1 else 0) file ∧ a.next.kind = .eof ∧
      a.next.remaining = 0 := by
  have hnumber : Lexeme.Stands ⟨digits, .token .number (.ofList digits)⟩ [] :=
    Lexeme.Written.integer hne hdigits (by simp [Lexeme.Ends]) (by simp)
  have hsplit := hnumber.split
  rw [List.append_nil] at hsplit
  cases negative with
  | false =>
    have htokens : Token.tokenize (.ofList digits) file = .ok [⟨.number, .ofList digits,
        ⟨.ofIndex 0 file, .ofIndex (Text.bytes digits) file⟩⟩, .endAt (.ofIndex (Text.bytes digits) file)] := by
      rw [Token.tokenize, String.toList_ofList, hsplit]
      simp [Token.place, Lexeme.split, Lexeme.splitFrom]
    exact ⟨_, _, htokens, .positive rfl rfl, rfl, rfl, rfl⟩
  | true =>
    have hdash : Lexeme.Stands ⟨['-'], .token .dash "-"⟩ digits :=
      written_sign (s := "-") (by decide) fun h => absurd h (by decide)
    have htokens : Token.tokenize (.ofList ('-' :: digits)) file = .ok [⟨.dash, "-",
        ⟨.ofIndex 0 file, .ofIndex 1 file⟩⟩, ⟨.number, .ofList digits, ⟨.ofIndex 1 file,
        .ofIndex (1 + Text.bytes digits) file⟩⟩, .endAt (.ofIndex (1 + Text.bytes digits) file)] := by
      rw [Token.tokenize, String.toList_ofList, show '-' :: digits = ['-'] ++ digits from rfl, hdash.split,
        hsplit]
      simp only [Token.place, Lexeme.split, Lexeme.splitFrom, Text.bytes_cons, Nat.zero_add]
      rfl
    exact ⟨_, _, htokens, .negative rfl rfl rfl, rfl, rfl, rfl⟩

/-- Digits behind a sign or without one, however many: as a text of their own they are an integer literal of
their decimal value if it has 64 bits, and otherwise a finding at the first digit that quotes them with the
sign. So they are wherever an expression may start and nothing behind them extends it. Behind a complete
operand a minus sign belongs to no literal: it subtracts what is read behind it, and digits there are
judged without it. -/
theorem expr_integer {digits : List Char} (hne : digits ≠ []) (hdigits : ∀ x ∈ digits, Numeral.isDigit x)
    (file : String) :
    (∀ negative, ∃ tokens,
      Token.tokenize (.ofList (Numeral.sign negative ++ digits)) file = .ok tokens ∧
      (Numeral.decimal negative digits ∈ Set.Icc (-2 ^ 63) (2 ^ 63 - 1) →
        ∃ node d, expr .lowest (.start tokens file) = .ok (.int node (Numeral.decimal negative digits)) d ∧
          d.remaining = 0) ∧
      (Numeral.decimal negative digits ∉ Set.Icc (-2 ^ 63) (2 ^ 63 - 1) →
        ∃ d, expr .lowest (.start tokens file) = .error (.rejected (.atPosition
          (.badNumber (.ofList (Numeral.sign negative ++ digits)))
          (.ofIndex (if negative then 1 else 0) file))) d)) ∧
    (∀ negative p c a, p < .call → Cursor.IntegerAt digits negative c a →
      (Numeral.decimal negative digits ∈ Set.Icc (-2 ^ 63) (2 ^ 63 - 1) →
        (∀ q, a.next.kind.extensionPower? = some q → ¬ p < q) →
        expr p c = .ok (.int (c.cover a.next) (Numeral.decimal negative digits)) a.next.fresh) ∧
      (Numeral.decimal negative digits ∉ Set.Icc (-2 ^ 63) (2 ^ 63 - 1) →
        expr p c = .error (.rejected (.atPosition (.badNumber (.ofList (Numeral.sign negative ++ digits)))
          a.position)) a.next)) ∧
    ∀ p c₀ left c, p < .additive → Expr.At c₀ left c → ¬ left.power < .additive → c.kind = .dash →
      (∀ right e, expr .additive c.next = .ok right e →
        (∀ q, e.kind.extensionPower? = some q → ¬ p < q) →
        expr p c₀ = .ok (.binary (c₀.cover e) .subtract left right) e.fresh) ∧
      (Cursor.IntegerAt digits false c.next c.next →
        Numeral.decimal false digits ∉ Set.Icc (-2 ^ 63) (2 ^ 63 - 1) →
        expr p c₀ = .error (.rejected (.atPosition (.badNumber (.ofList digits)) c.next.position))
          c.next.next) := by
  refine ⟨fun negative => ?_, fun negative p c a hp h => ⟨fun hv => expr_eq_int hne hdigits hp h hv,
    fun hv => exprWithin_eq_badNumber hne hdigits (Nat.succ_pos _) h hv⟩, ?_⟩
  · obtain ⟨tokens, a, htokens, h, hposition, hend, hleft⟩ := tokenize_integer hne hdigits negative file
    refine ⟨tokens, htokens, fun hv => ?_, fun hv => ?_⟩
    · exact ⟨_, _, expr_eq_int hne hdigits (by decide) h hv (by simp [hend, TokenKind.extensionPower?]), hleft⟩
    · rw [← hposition]
      exact ⟨_, exprWithin_eq_badNumber hne hdigits (Nat.succ_pos _) h hv⟩
  · intro p c₀ left c hp hleft hpower hdash
    exact ⟨fun right e => expr_eq_subtract hp hleft hpower hdash,
      fun h hv => expr_eq_badNumber hne hdigits hp hleft hpower hdash h hv⟩

/-- The least integer of 64 bits is read from its digits with the sign, with a zero before them. Without the
sign they are rejected, and so they are behind a name and a minus sign. -/
theorem expr_integer_least :
    (∃ tokens node d, Token.tokenize "-09223372036854775808" "main" = .ok tokens ∧
      expr .lowest (.start tokens "main") = .ok (.int node (-2 ^ 63)) d ∧ d.remaining = 0) ∧
    (∃ tokens d, Token.tokenize "09223372036854775808" "main" = .ok tokens ∧
      expr .lowest (.start tokens "main") =
        .error (.rejected (.atPosition (.badNumber "09223372036854775808") (.ofIndex 0 "main"))) d) ∧
    ∃ d, expr .lowest (.ofWords [⟨.identifier, "x"⟩, .mark .dash, ⟨.number, "09223372036854775808"⟩]) =
      .error (.rejected (.atPosition (.badNumber "09223372036854775808") Span.null.start)) d := by
  let digits : List Char := "09223372036854775808".toList
  have hne : digits ≠ [] := by decide
  have hdigits : ∀ x ∈ digits, Numeral.isDigit x := by simp [digits, Numeral.isDigit]
  have hvalue (negative : Bool) : Numeral.decimal negative digits = if negative then -2 ^ 63 else 2 ^ 63 := by
    cases negative <;> decide
  have hlarge : Numeral.decimal false digits ∉ Set.Icc (-2 ^ 63) (2 ^ 63 - 1) := by
    rw [hvalue]
    simp
  obtain ⟨halone, _, hbehind⟩ := expr_integer hne hdigits "main"
  refine ⟨?_, ?_, ?_⟩
  · obtain ⟨tokens, htokens, hread, _⟩ := halone true
    rw [hvalue] at hread
    obtain ⟨node, d, hrun⟩ := hread (by simp)
    exact ⟨tokens, node, d, htokens, hrun⟩
  · obtain ⟨tokens, htokens, _, hbad⟩ := halone false
    obtain ⟨d, hrun⟩ := hbad hlarge
    exact ⟨tokens, d, htokens, hrun⟩
  · exact ⟨_, (hbehind .lowest _ _ _ (by decide) (.symbol rfl) (by decide) rfl).2 (.positive rfl rfl) hlarge⟩

end Parser

end ScriptAnalysis
