import ScriptAnalysis.Proofs.Grammar.StmtSound

/-!
Reading always comes to an end. From every place in every stream of tokens, also behind a token that
ends a text, each parser returns; what it reads takes at least one token, and the closing token is never
passed (`Parser.program_returns`).
-/
namespace ScriptAnalysis

namespace Parser

variable {α : Type} {m : Parser α} {c : Cursor} {Q : α → Cursor → Prop}

/-- A parser returns from a cursor, in the same stream and not behind its closing token: it succeeds as
stated, or it rejects a token. -/
inductive Returns (m : Parser α) (c : Cursor) (Q : α → Cursor → Prop) : Prop
  | ok {a : α} {d : Cursor} (h : m c = .ok a d) (hstream : d.stream = c.stream)
    (hle : d.index ≤ c.stream.tokens.size) (hresult : Q a d) : Returns m c Q
  | rejected {x : Diagnostic} {d : Cursor} (h : m c = .error (.rejected x) d) (hstream : d.stream = c.stream)
    (hle : d.index ≤ c.stream.tokens.size) : Returns m c Q

theorem Runs.returns {E : Prop} {R : α → Cursor → Prop} (hm : Runs ⟨c.stream, _, le_rfl⟩ E m c R)
    (hE : E) (hc : c.index ≤ c.stream.tokens.size) (h : ∀ a d, R a d → Q a d) : Returns m c Q := by
  have hend := hm ⟨rfl, hc⟩
  generalize hr : m c = r at hend
  cases hend with
  | ok hd ha => exact .ok hr hd.stream hd.le (h _ _ ha)
  | rejected hd => exact .rejected hr hd.stream hd.le
  | exhausted hnot => exact absurd hE hnot

/-- A parser that returns, and moves on if it succeeds. -/
abbrev Progresses (m : Parser α) (c : Cursor) : Prop := Returns m c fun _ d => c.index < d.index

/-- Reading a program returns, at the end of the text if it succeeds. From any place in the tokens, the
parsers that it is made of return as well, at every depth that the tokens left ask for. -/
theorem program_returns (tokens : List Token) (file : String) :
    Returns program (.start tokens file) (fun _ d => d.kind = .eof) ∧
      ∀ c : Cursor, c.stream = .ofList tokens file → c.index ≤ c.stream.tokens.size →
        Returns advance c (fun _ _ => True) ∧
        (∀ p, Progresses (typeExpr p) c) ∧
        Returns resultType c (fun _ d => c.index ≤ d.index) ∧
        (∀ p, Progresses (expr p) c) ∧
        (∀ depth p, c.remaining < depth → Progresses (exprWithin depth p) c) ∧
        Progresses stmt c ∧
        (∀ depth, c.remaining < depth → Progresses (stmtWithin depth) c) ∧
        Progresses block c ∧
        Returns program c (fun _ d => d.kind = .eof) := by
  have hprogram (c : Cursor) (hc : c.index ≤ c.stream.tokens.size) :
      Returns program c (fun _ d => d.kind = .eof) :=
    (runs_program c).returns trivial hc fun _ _ h => h.2.1
  refine ⟨hprogram _ (Nat.zero_le _), fun c _ hc => ?_⟩
  refine ⟨?_, ?_, ?_, ?_, ?_, ?_, ?_, ?_, hprogram c hc⟩
  · have hnext : c.next.In ⟨c.stream, _, le_rfl⟩ := Cursor.In.next ⟨rfl, hc⟩
    exact .ok rfl hnext.stream hnext.le trivial
  · exact fun p => (runs_typeExpr (E := True)).returns trivial hc fun _ _ h => h.before.lt
  · exact (runs_resultType (E := True)).returns trivial hc fun _ _ h => h.reaches.index
  · exact fun p => (runs_expr p c).returns trivial hc fun _ _ h => h.read.before.lt
  · exact fun depth p hdepth => (runs_exprWithin depth p c).returns hdepth hc
      fun _ _ h => h.read.before.lt
  · exact (runs_stmt c).returns trivial hc fun _ _ h => h.before.lt
  · exact fun depth hdepth => (runs_stmtWithin depth c).returns hdepth hc fun _ _ h => h.before.lt
  · exact (runs_block c).returns trivial hc fun _ _ h => h.before.lt

/-- Tokens with an end of the text in their middle, and a place behind it. -/
theorem program_returns_behind :
    ∃ (tokens : List Token) (c : Cursor), tokens.map Token.kind = [.identifier, .eof, .openCurly, .eof, .less] ∧
      c.stream = .ofList tokens "main" ∧ c.index = 2 ∧ c.index ≤ c.stream.tokens.size ∧
      Returns program (.start tokens "main") (fun _ d => d.kind = .eof) ∧
      Progresses block c ∧ Progresses stmt c ∧ Progresses (expr .lowest) c := by
  let tokens : List Token := [⟨.identifier, "f", .null⟩, ⟨.eof, "EOF", .null⟩, ⟨.openCurly, "\x7b", .null⟩,
    ⟨.eof, "EOF", .null⟩, ⟨.less, "<", .null⟩]
  let c : Cursor := ⟨.ofList tokens "main", "main", 2, 0, true⟩
  have hc : c.index ≤ c.stream.tokens.size := by decide
  obtain ⟨hparse, hparts⟩ := program_returns tokens "main"
  obtain ⟨_, _, _, hexpr, _, hstmt, _, hblock, _⟩ := hparts c rfl hc
  exact ⟨tokens, c, rfl, rfl, rfl, hc, hparse, hblock, hstmt, hexpr .lowest⟩

end Parser

end ScriptAnalysis
