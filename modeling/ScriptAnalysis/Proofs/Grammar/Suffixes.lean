import ScriptAnalysis.Proofs.Grammar.ExprComplete
import ScriptAnalysis.Proofs.Grammar.StmtSound

/-!
Suffixes of written types. A written type takes all suffixes that stand behind its name
(`Parser.run_typeExpr`). Braces may also be the body behind a result type: they are suffixes if a body
still follows all of them, and none of them is a suffix otherwise (`Parser.run_resultType`).
-/
namespace ScriptAnalysis

open Word (mark firstKind)

namespace Word

/-- The container that two words make of the type before them. -/
def suffix? (braces : Bool) (w v : Word) : Option Container :=
  match w.kind, v.kind with
  | .openBracket, .closeBracket => some .array
  | .openCurly, .closeCurly => if braces then some .set else none
  | _, _ => none

/-- The suffixes in front of words, and the words behind them. -/
def suffixes (braces : Bool) : List Word → List Container × List Word
  | w :: v :: rest =>
    match suffix? braces w v with
    | some c => (c :: (suffixes braces rest).1, (suffixes braces rest).2)
    | none => ([], w :: v :: rest)
  | ws => ([], ws)

def ofSuffixes (cs : List Container) : List Word := cs.flatMap fun c => [mark c.opening, mark c.closing]

variable {braces : Bool} {w v : Word} {ws rest : List Word}

theorem suffixes_cons {c : Container} (h : suffix? braces w v = some c) :
    suffixes braces (w :: v :: rest) = (c :: (suffixes braces rest).1, (suffixes braces rest).2) := by
  rw [suffixes, h]

theorem suffixes_end (h : suffix? braces w v = none) :
    suffixes braces (w :: v :: rest) = ([], w :: v :: rest) := by
  rw [suffixes, h]

theorem suffixes_append (cs : List Container) (h : braces = true ∨ .set ∉ cs) (rest : List Word) :
    suffixes braces (ofSuffixes cs ++ rest) =
      (cs ++ (suffixes braces rest).1, (suffixes braces rest).2) := by
  induction cs with
  | nil => rfl
  | cons c cs ih =>
    have hc : suffix? braces (mark c.opening) (mark c.closing) = some c := by
      cases c with
      | array => rfl
      | set =>
        obtain rfl : braces = true := h.resolve_right (by simp)
        rfl
    show suffixes braces (mark c.opening :: mark c.closing :: (ofSuffixes cs ++ rest)) = _
    rw [suffixes_cons hc, ih (h.imp_right fun h hmem => h (List.mem_cons_of_mem c hmem))]
    rfl

end Word

namespace TypeExpr

/-- A written type with suffixes behind it. -/
def wrap (t : TypeExpr) : List Container → TypeExpr
  | [] => t
  | c :: cs => wrap (.container .blank c t) cs

/-- The suffixes of a written type in their order. -/
def suffixes : TypeExpr → List Container
  | .name _ _ => []
  | .container _ c component => component.suffixes ++ [c]

def text : TypeExpr → String
  | .name _ text => text
  | .container _ _ component => component.text

theorem wrap_append (t : TypeExpr) (cs ds : List Container) :
    t.wrap (cs ++ ds) = (t.wrap cs).wrap ds := by
  induction cs generalizing t with
  | nil => rfl
  | cons c cs ih => exact ih _

theorem suffixes_wrap (t : TypeExpr) (cs : List Container) :
    (t.wrap cs).suffixes = t.suffixes ++ cs := by
  induction cs generalizing t with
  | nil => exact (List.append_nil _).symm
  | cons c cs ih => rw [wrap, ih, suffixes, List.append_assoc, List.singleton_append]

theorem suffixes_bare (t : TypeExpr) : t.bare.suffixes = t.suffixes := by
  induction t with
  | name => rfl
  | container _ c component ih => rw [bare, suffixes, suffixes, ih]

theorem bare_eq_wrap (t : TypeExpr) : t.bare = (name .blank t.text).wrap t.suffixes := by
  induction t with
  | name => rfl
  | container _ c component ih => rw [bare, suffixes, text, wrap_append, ← ih]; rfl

theorem words_eq (t : TypeExpr) : t.words = ⟨.identifier, t.text⟩ :: Word.ofSuffixes t.suffixes := by
  induction t with
  | name => rfl
  | container _ c component ih =>
    rw [words, ih, suffixes, Word.ofSuffixes, Word.ofSuffixes, List.flatMap_append]
    rfl

end TypeExpr

namespace Cursor

variable {c : Cursor} {w v : Word} {rest : List Word}

structure Onward (c c' : Cursor) (rest : List Word) : Prop where
  words : c'.words = rest
  stream : c'.stream = c.stream
  setSuffix : c'.setSuffix = c.setSuffix

theorem onward_next (h : c.words = w :: rest) : c.Onward c.next rest := by
  have hend : c.kind ≠ .eof := by
    intro heq
    rw [words_eq_nil heq] at h
    cases h
  rw [words_of_kind hend] at h
  refine ⟨(List.cons.inj h).2, ?_, ?_⟩
  · unfold next
    split <;> rfl
  · unfold next
    split <;> rfl

theorem typeSuffix?_eq (h : c.words = w :: v :: rest) :
    c.typeSuffix? = Word.suffix? c.setSuffix w v := by
  rw [typeSuffix?, kind_eq, peek_one h, h, Word.firstKind_cons, Word.firstKind_cons, Word.suffix?]
  cases w.kind with
  | openBracket | openCurly => cases v.kind <;> simp
  | _ => rfl

theorem typeSuffix?_eq_none (h : c.words.length < 2) : c.typeSuffix? = none := by
  cases hsuffix : c.typeSuffix? with
  | none => rfl
  | some k =>
    obtain ⟨hopening, hclosing⟩ := kind_of_typeSuffix? hsuffix
    rw [words_mark hopening k.spelling?_opening, words_mark hclosing k.spelling?_closing,
      List.length_cons, List.length_cons] at h
    omega

end Cursor

namespace Parser

variable {c : Cursor} {w v : Word} {rest : List Word}

theorem run_typeStep {k : Container} (left : TypeExpr) (hc : c.words = w :: v :: rest)
    (hk : Word.suffix? c.setSuffix w v = some k) :
    ∃ node c', typeStep .lowest left c = .ok (.inl (.container node k left)) c' ∧
      c.Onward c' rest := by
  have hfirst := Cursor.onward_next hc
  have hsecond := Cursor.onward_next hfirst.words
  have hset := hsecond.setSuffix.trans hfirst.setSuffix
  refine ⟨⟨⟨c.next.next.nextId⟩, c.next.next.spanFrom left.node.span.start⟩,
    { c.next.next with nextId := c.next.next.nextId + 1 }, ?_, hsecond.words,
    hsecond.stream.trans hfirst.stream, hset⟩
  rw [typeStep, run_get, Cursor.typeSuffix?_eq hc, hk]
  rfl

/-- Where no suffix stands the type is done. -/
theorem run_typeStep_end (left : TypeExpr) (hc : c.typeSuffix? = none) :
    typeStep .lowest left c = .ok (.inr left) c := by
  rw [typeStep, run_get, hc]
  rfl

/-- The loop over suffixes takes all that stand there. -/
theorem run_typeSuffixes (fuel : Nat) (left : TypeExpr) (c : Cursor) (h : c.words.length < fuel) :
    ∃ t c', repeatWithin (typeStep .lowest) fuel left c = .ok t c' ∧
      t.bare = left.bare.wrap (Word.suffixes c.setSuffix c.words).1 ∧
      c.Onward c' (Word.suffixes c.setSuffix c.words).2 := by
  induction fuel generalizing left c with
  | zero => exact absurd h (Nat.not_lt_zero _)
  | succ fuel ih =>
    have hdone (hnone : c.typeSuffix? = none)
        (hend : Word.suffixes c.setSuffix c.words = ([], c.words)) : ∃ t c',
        repeatWithin (typeStep .lowest) (fuel + 1) left c = .ok t c' ∧
          t.bare = left.bare.wrap (Word.suffixes c.setSuffix c.words).1 ∧
          c.Onward c' (Word.suffixes c.setSuffix c.words).2 := by
      rw [hend]
      refine ⟨left, c, ?_, rfl, rfl, rfl, rfl⟩
      rw [repeatWithin, run_bind (run_typeStep_end left hnone)]
      rfl
    rcases hwords : c.words with _ | ⟨w, _ | ⟨v, rest⟩⟩
    · exact hwords ▸ hdone (Cursor.typeSuffix?_eq_none (by simp [hwords])) (by rw [hwords]; rfl)
    · exact hwords ▸ hdone (Cursor.typeSuffix?_eq_none (by simp [hwords])) (by rw [hwords]; rfl)
    · cases hk : Word.suffix? c.setSuffix w v with
      | none =>
        have hnone : c.typeSuffix? = none := (Cursor.typeSuffix?_eq hwords).trans hk
        exact hwords ▸ hdone hnone (by rw [hwords, Word.suffixes_end hk])
      | some k =>
        obtain ⟨node, d, hstep, hd⟩ := run_typeStep left hwords hk
        have hlt : d.words.length < fuel := by
          rw [hwords] at h
          rw [hd.words]
          simp only [List.length_cons] at h
          omega
        obtain ⟨t, e, hloop, ht, he⟩ := ih (.container node k left) d hlt
        rw [hd.setSuffix, hd.words] at ht he
        rw [Word.suffixes_cons hk]
        refine ⟨t, e, ?_, ht, he.words, he.stream.trans hd.stream, he.setSuffix.trans hd.setSuffix⟩
        rw [repeatWithin, run_bind hstep]
        exact hloop

/-- A written type is a name with all suffixes that stand behind it. -/
theorem run_typeExpr {text : String} (hc : c.words = ⟨.identifier, text⟩ :: rest) :
    ∃ t c', typeExpr .lowest c = .ok t c' ∧
      t.bare = (TypeExpr.name .blank text).wrap (Word.suffixes c.setSuffix rest).1 ∧
      c.Onward c' (Word.suffixes c.setSuffix rest).2 := by
  have hkind : c.kind = .identifier := by rw [Cursor.kind_eq, hc]; rfl
  have hend : c.kind ≠ .eof := by rw [hkind]; decide
  have hnext := Cursor.onward_next hc
  have hvalue : c.current.value = text := by
    rw [Cursor.words_of_kind hend] at hc
    exact (Token.eq_of_word (List.cons.inj hc).1 rfl).2
  let left : TypeExpr := .name ⟨⟨c.next.nextId⟩, c.current.span⟩ c.current.value
  let d : Cursor := { c.next with nextId := c.next.nextId + 1 }
  have hname : typeName c = .ok left d := by
    rw [typeName, run_bind (run_expect hkind)]
    rfl
  obtain ⟨t, e, hloop, ht, he⟩ := run_typeSuffixes (d.remaining + 1) left d (by
    have := d.length_words_le
    omega)
  have hwords : d.words = rest := hnext.words
  have hset : d.setSuffix = c.setSuffix := hnext.setSuffix
  have hleft : left.bare = .name .blank text := by rw [TypeExpr.bare, hvalue]
  rw [hwords, hset] at ht he
  rw [hleft] at ht
  refine ⟨t, e, ?_, ht, he.words, he.stream.trans hnext.stream, he.setSuffix.trans hset⟩
  have hstart : typeExpr .lowest c = (typeName >>= iterate (typeStep .lowest)) c := by
    rw [typeExpr, run_kind, if_neg (not_not.2 hkind)]
  rw [hstart, run_bind hname]
  exact hloop

/-- The result type and the words behind it, at a name behind a colon. Braces are suffixes if a body still
follows. -/
def resultAt (text : String) (ws : List Word) : TypeExpr × List Word :=
  let taken := Word.suffixes true ws
  let braces := decide (firstKind taken.2 = .openCurly)
  let read := Word.suffixes braces ws
  ((TypeExpr.name .blank text).wrap read.1, read.2)

/-- A result type is read, and read again if no body follows. -/
theorem resultType_of_colon (h : c.kind = .colon) :
    resultType c = (typeExpr .lowest >>= fun type => kind >>= fun k =>
      if k = .openCurly then pure type
      else moveTo c.next.index >>= fun _ => withoutSetSuffix (typeExpr .lowest)) c.next := by
  rw [resultType, run_kind, if_neg (not_not.2 h)]
  rfl

theorem run_resultType {text : String} (hset : c.setSuffix = true)
    (hc : c.words = mark .colon :: ⟨.identifier, text⟩ :: rest) :
    ∃ t c', resultType c = .ok t c' ∧ t.bare = (resultAt text rest).1 ∧
      c.Onward c' (resultAt text rest).2 := by
  have hkind : c.kind = .colon := by rw [Cursor.kind_eq, hc]; rfl
  have hnext := Cursor.onward_next hc
  obtain ⟨t, d, hrun, ht, hd⟩ := run_typeExpr hnext.words
  rw [hnext.setSuffix, hset] at ht hd
  rw [resultType_of_colon hkind, run_bind hrun, run_kind, Cursor.kind_eq, hd.words]
  by_cases hbody : firstKind (Word.suffixes true rest).2 = .openCurly
  · rw [if_pos hbody]
    simp only [resultAt, hbody, decide_true]
    exact ⟨t, d, rfl, ht, hd.words, hd.stream.trans hnext.stream, hd.setSuffix.trans hnext.setSuffix⟩
  · rw [if_neg hbody]
    simp only [resultAt, hbody, decide_false]
    let back : Cursor := { d with index := c.next.index, setSuffix := false }
    have hback : back.words = ⟨.identifier, text⟩ :: rest := by
      rw [← hnext.words, Cursor.words, Cursor.words, hd.stream]
    obtain ⟨t', e, hrun', ht', he⟩ := run_typeExpr hback
    refine ⟨t', { e with setSuffix := d.setSuffix }, ?_, ht', he.words, ?_, ?_⟩
    · show withoutSetSuffix (typeExpr .lowest) { d with index := c.next.index } = _
      simp only [withoutSetSuffix]
      rw [show typeExpr .lowest { d with index := c.next.index, setSuffix := false } = .ok t' e
        from hrun']
    · exact he.stream.trans (hd.stream.trans hnext.stream)
    · exact hd.setSuffix.trans hnext.setSuffix

end Parser

end ScriptAnalysis
