import ScriptAnalysis.Proofs.Grammar.StmtSound
import ScriptAnalysis.Proofs.Propagation.Sweeps
import ScriptAnalysis.Typing.Analysis

/-!
Programs without findings. Whether a text is one can be evaluated when a number of sweeps is given that
suffices to resolve it.
-/
namespace ScriptAnalysis

/-- The analysis of a program that has no findings, if the number of sweeps suffices for it. -/
def Program.acceptedWithin (sweeps : Nat) (p : Program) : Option Analysis :=
  match Draft.after do
      Builtin.declareAll
      Walk.program p with
  | .error _ => none
  | .ok d =>
    match Rule.settleWithin sweeps d.attributes d.rules with
    | none => none
    | some s =>
      if d.diagnostics = [] ∧ s.diagnostics = [] ∧ s.waiting = [] then
        some { tables := d.tables, attributes := s.attributes, diagnostics := [] }
      else none

theorem Program.analyse_of_acceptedWithin {n : Nat} {p : Program} {a : Analysis}
    (h : p.acceptedWithin n = some a) : p.analyse = .ok a ∧ a.diagnostics = [] := by
  unfold acceptedWithin at h
  split at h
  · cases h
  · next d hd =>
    split at h
    · cases h
    · next s hs =>
      split at h
      · next hnone =>
        cases h
        have hsettle := Rule.settle_of_settleWithin hs
        refine ⟨?_, rfl⟩
        rw [analyse, hd]
        simp [Draft.resolve, Rule.resolve, hsettle, hnone, bind, Except.bind, pure, Except.pure,
          Rule.stuckDiagnostics]
      · cases h

/-- Whether a text is a program without findings whose analysis passes a test. -/
def Program.accepts (sweeps : Nat) (file text : String) (test : Program → Analysis → Bool) : Bool :=
  match Token.tokenize text file with
  | .error _ => false
  | .ok tokens =>
    match parse tokens file with
    | .error _ _ => false
    | .ok p _ => (p.acceptedWithin sweeps).any (test p)

theorem Program.exists_of_accepts (n : Nat) (file text : String) (test : Program → Analysis → Bool)
    (h : accepts n file text test = true) :
    ∃ tokens p c a, Token.tokenize text file = .ok tokens ∧ parse tokens file = .ok p c ∧
      p.analyse = .ok a ∧ a.diagnostics = [] ∧ test p a = true := by
  unfold accepts at h
  split at h
  · cases h
  · next tokens htokens =>
    split at h
    · cases h
    · next p c hparse =>
      obtain ⟨a, ha, htest⟩ := (Option.any_eq_true ..).1 h
      obtain ⟨hrun, hnil⟩ := analyse_of_acceptedWithin ha
      exact ⟨tokens, p, c, a, htokens, hparse, hrun, hnil, htest⟩

end ScriptAnalysis
