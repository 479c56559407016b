import ScriptAnalysis.Proofs.Grammar.Located

/-!
What a parser does from a cursor on. It succeeds as stated, or it rejects a token of the stream, or it runs
out of depth, and that only if there was too little of it (`Parser.Runs`). Each parser has one lemma that
says so, and a parser made of others gets its lemma from theirs.
-/
namespace ScriptAnalysis

structure Region where
  stream : TokenStream
  limit : Nat
  size_le : stream.tokens.size ≤ limit

namespace Cursor

variable {c : Cursor} {w : Region}

structure In (c : Cursor) (w : Region) : Prop where
  stream : c.stream = w.stream
  le : c.index ≤ w.limit

theorem In.next (h : c.In w) : c.next.In w := by
  unfold Cursor.next
  split
  next hlt =>
    refine ⟨h.stream, ?_⟩
    have := w.size_le
    rw [h.stream] at hlt
    exact Nat.le_trans hlt this
  next => exact h

theorem In.marks (h : c.In w) : w.stream.Marks c.position := ⟨c.index, by rw [← h.stream]; rfl⟩

def region (c : Cursor) : Region := ⟨c.stream, max c.index c.stream.tokens.size, Nat.le_max_right ..⟩

theorem in_region (c : Cursor) : c.In c.region := ⟨rfl, Nat.le_max_left ..⟩

end Cursor

namespace Parser

variable {α β σ : Type} {w : Region} {E : Prop} {m : Parser α} {f : α → Parser β} {c : Cursor}
  {R : α → Cursor → Prop} {Q : β → Cursor → Prop}

/-- How a parser ends: with a result as stated, with a finding at a token, or for lack of depth, which
`E` rules out. -/
inductive Ends (w : Region) (E : Prop) (Q : α → Cursor → Prop) : EStateM.Result Failure Cursor α → Prop
  | ok {a : α} {d : Cursor} (hd : d.In w) (h : Q a d) : Ends w E Q (.ok a d)
  | rejected {x : Diagnostic} {d : Cursor} (hd : d.In w) (h : w.stream.Marks x.span.start) :
    Ends w E Q (.error (.rejected x) d)
  | exhausted {d : Cursor} (h : ¬ E) : Ends w E Q (.error .exhausted d)

def Runs (w : Region) (E : Prop) (m : Parser α) (c : Cursor) (Q : α → Cursor → Prop) : Prop :=
  c.In w → Ends w E Q (m c)

theorem Runs.bind (hm : Runs w E m c R) (hf : ∀ a d, R a d → Runs w E (f a) d Q) :
    Runs w E (m >>= f) c Q := by
  intro hc
  have hend := hm hc
  show Ends w E Q (EStateM.bind m f c)
  unfold EStateM.bind
  generalize m c = r at hend
  cases hend with
  | ok hd h => exact hf _ _ h hd
  | rejected hd h => exact .rejected hd h
  | exhausted h => exact .exhausted h

theorem Runs.mono {E' : Prop} {Q : α → Cursor → Prop} (hm : Runs w E' m c R) (hE : E → E')
    (h : ∀ a d, R a d → Q a d) : Runs w E m c Q := by
  intro hc
  have hend := hm hc
  generalize m c = r at hend
  cases hend with
  | ok hd ha => exact .ok hd (h _ _ ha)
  | rejected hd hx => exact .rejected hd hx
  | exhausted hE' => exact .exhausted fun he => hE' (hE he)

theorem Runs.of_ok (hm : Runs c.region E m c R) {a : α} {d : Cursor} (h : m c = .ok a d) : R a d := by
  have hend := hm c.in_region
  rw [h] at hend
  cases hend with
  | ok _ ha => exact ha

/-- A parser may use that its cursor is in the region. -/
theorem runs_in (h : c.In w → Runs w E m c R) : Runs w E m c R := fun hc => h hc hc

theorem runs_pure {a : α} (h : R a c) : Runs w E (pure a) c R := fun hc => .ok hc h

theorem runs_exhausted (h : ¬ E) : Runs w E (throw .exhausted) c R := fun _ => .exhausted h

theorem runs_reject {x : Diagnostic} (h : w.stream.Marks x.span.start) : Runs w E (reject x) c R :=
  fun hc => .rejected hc h

theorem runs_unexpected : Runs w E unexpected c R := fun hc => .rejected hc hc.marks

theorem runs_unexpectedBecause (message : String) : Runs w E (unexpectedBecause message) c R :=
  fun hc => .rejected hc hc.marks

/-- What comes behind a failure does not matter. -/
theorem runs_fail (h : Runs w E m c fun _ _ => False) : Runs w E (m >>= f) c Q :=
  h.bind fun _ _ h => h.elim

theorem runs_get {f : Cursor → Parser β} (h : Runs w E (f c) c Q) : Runs w E (get >>= f) c Q := h

theorem runs_kind {f : TokenKind → Parser β} (h : Runs w E (f c.kind) c Q) : Runs w E (kind >>= f) c Q :=
  h

theorem runs_advance {f : Token → Parser β} (h : Runs w E (f c.current) c.next Q) :
    Runs w E (advance >>= f) c Q :=
  fun hc => h hc.next

theorem discard_bind {m : Parser α} {f : PUnit → Parser β} :
    (discard m >>= f) = (m >>= fun _ => f ⟨⟩) := by
  funext c
  show EStateM.bind (discard m) f c = EStateM.bind m _ c
  simp only [discard, Functor.mapConst, EStateM.map, Function.comp, EStateM.bind]
  cases m c <;> rfl

theorem runs_discard {f : PUnit → Parser β} (h : Runs w E (m >>= fun _ => f ⟨⟩) c Q) :
    Runs w E (discard m >>= f) c Q := by
  rw [discard_bind]
  exact h

theorem runs_expectOr {k : TokenKind} {x : Cursor → Diagnostic} {f : Token → Parser β}
    (hx : (x c).span.start = c.position) (h : c.kind = k → Runs w E (f c.current) c.next Q) :
    Runs w E (expectOr k x >>= f) c Q := by
  intro hc
  have hstep : Runs w E (expectOr k x) c fun t d => c.kind = k ∧ t = c.current ∧ d = c.next := by
    refine runs_get ?_
    split
    next hk => exact fun hc => .ok hc.next ⟨hk, rfl, rfl⟩
    next => exact runs_reject (hx ▸ hc.marks)
  refine hstep.bind ?_ hc
  rintro _ _ ⟨hk, rfl, rfl⟩
  exact h hk

theorem runs_expect {k : TokenKind} {f : Token → Parser β}
    (h : c.kind = k → Runs w E (f c.current) c.next Q) : Runs w E (expect k >>= f) c Q :=
  runs_expectOr rfl h

theorem runs_nodeAt {span : Span} {f : Node → Parser β} (h : Runs w E (f ⟨⟨c.nextId⟩, span⟩) c.fresh Q) :
    Runs w E (nodeAt span >>= f) c Q :=
  fun hc => h ⟨hc.stream, hc.le⟩

theorem runs_nodeFrom {start : Position} {f : Node → Parser β}
    (h : Runs w E (f ⟨⟨c.nextId⟩, ⟨start, c.lastEnd⟩⟩) c.fresh Q) :
    Runs w E (nodeFrom start >>= f) c Q :=
  runs_nodeAt h

section Loops

variable {step : σ → Parser (σ ⊕ α)} {I : σ → Cursor → Prop}

theorem runs_repeatWithin
    (h : ∀ s d, I s d → Runs w E (step s) d fun r d' =>
      r.elim (fun s' => I s' d' ∧ d.Before d') fun a => R a d')
    {fuel : Nat} {s : σ} (hfuel : c.remaining < fuel) (hs : I s c) :
    Runs w E (repeatWithin step fuel s) c R := by
  induction fuel generalizing s c with
  | zero => cases hfuel
  | succ fuel ih =>
    refine (h s c hs).bind ?_
    intro r d hr
    cases r with
    | inl s' =>
      have hlt := hr.2.remaining_lt
      exact ih (by omega) hr.1
    | inr a => exact runs_pure hr

/-- A loop whose steps each pass a token ends. What every step keeps, and the last step turns into a
result, holds of the result. -/
theorem runs_iterate
    (h : ∀ s d, I s d → Runs w E (step s) d fun r d' =>
      r.elim (fun s' => I s' d' ∧ d.Before d') fun a => R a d')
    {s : σ} (hs : I s c) : Runs w E (iterate step s) c R :=
  runs_get (runs_repeatWithin h (Nat.lt_succ_self _) hs)

end Loops

section Lists

variable {item : Parser α} {R : Cursor → α → Cursor → Prop} {close : TokenKind} {c₀ : Cursor}

/-- The items found so far, at the cursor behind them: more items may follow, or the closing token
follows. -/
def ItemsTo (R : Cursor → α → Cursor → Prop) (close : TokenKind) (c : Cursor) (items : List α)
    (d : Cursor) : Prop :=
  c.Reaches d ∧ ((∀ more e, ItemsAt R d close more e → ItemsAt R c close (items.reverse ++ more) e) ∨
    d.kind = close ∧ ItemsAt R c close items.reverse d.next)

theorem runs_commaStep {items : List α} (h : ItemsTo R close c₀ items c)
    (hitem : Runs w E item c fun a d => R c a d ∧ c.Before d) :
    Runs w E (commaStep close item items) c fun r d =>
      r.elim (fun more => ItemsTo R close c₀ more d ∧ c.Before d) fun all =>
        d.kind = close → ItemsAt R c₀ close all d.next := by
  refine runs_kind ?_
  obtain ⟨hreach, h⟩ := h
  split
  next hclose =>
    refine runs_pure fun _ => ?_
    rcases h with hmore | ⟨_, hall⟩
    · simpa using hmore [] _ (.nil hclose)
    · exact hall
  next hopen =>
    have hmore := h.resolve_right fun hclosed => hopen hclosed.1
    refine hitem.bind ?_
    rintro a d ⟨ha, hbefore⟩
    refine runs_kind ?_
    split
    next hcomma =>
      have hpast := hbefore.trans (Cursor.before_next hcomma (by decide))
      refine runs_discard (runs_advance (runs_pure ⟨⟨hreach.trans hpast.toReaches, .inl ?_⟩, hpast⟩))
      intro others e hothers
      simpa using hmore (a :: others) e (.more ha hcomma hothers)
    next =>
      split
      · exact runs_fail runs_unexpected
      next hclose =>
        have hkind := not_not.1 hclose
        refine runs_pure ⟨⟨hreach.trans hbefore.toReaches, .inr ⟨hkind, ?_⟩⟩, hbefore⟩
        simpa using hmore [a] _ (.last ha hkind)

theorem runs_commaSeparated {Q : List α → Cursor → Prop}
    (hitem : ∀ d, c.Reaches d → Runs w E item d fun a e => R d a e ∧ d.Before e)
    (h : ∀ items d, ItemsAt R c close items d → Q items d) :
    Runs w E (commaSeparated close item) c Q := by
  have hstart : ItemsTo R close c [] c := ⟨.refl c, .inl fun more rest hmore => hmore⟩
  refine (runs_iterate (fun items d hd => runs_commaStep hd (hitem d hd.1)) hstart).bind ?_
  intro items d hitems
  exact runs_discard (runs_expect fun hclose => runs_pure (h items _ (hitems hclose)))

end Lists

section Types

variable {power : Power}

theorem runs_typeStep {left : TypeExpr} {c₀ : Cursor} (hleft : left.At c₀ c) :
    Runs w E (typeStep power left) c fun r d =>
      r.elim (fun t => t.At c₀ d ∧ c.Before d) fun t => t.At c₀ d := by
  refine runs_get ?_
  split
  next k hk =>
    split
    · refine runs_discard (runs_advance (runs_discard (runs_advance (runs_nodeFrom (runs_pure ?_)))))
      refine ⟨?_, (Cursor.before_suffix hk).fresh⟩
      rw [hleft.span]
      exact .container hleft hk
    · exact runs_pure hleft
  next => exact runs_pure hleft

theorem runs_typeExpr : Runs w E (typeExpr power) c fun t d => t.At c d := by
  refine runs_kind ?_
  split
  · exact runs_fail (runs_unexpectedBecause _)
  next h =>
    have hname := not_not.1 h
    have hstart : Runs w E typeName c fun t d => t.At c d := by
      refine runs_expect fun _ => runs_nodeAt (runs_pure ?_)
      rw [← Cursor.cover_next (hname ▸ by decide)]
      exact .name hname
    exact hstart.bind fun t d ht => runs_iterate (fun left d hleft => runs_typeStep hleft) ht

end Types

section Equations

theorem run_get (f : Cursor → Parser β) (c : Cursor) : (get >>= f) c = f c c := rfl

theorem run_bind {a : α} {d : Cursor} (h : m c = .ok a d) : (m >>= f) c = f a d := by
  simp only [Bind.bind, EStateM.bind, h]

theorem run_fail {x : Failure} {d : Cursor} (h : m c = .error x d) : (m >>= f) c = .error x d := by
  simp only [Bind.bind, EStateM.bind, h]

theorem run_kind (f : TokenKind → Parser β) (c : Cursor) : (kind >>= f) c = f c.kind c := rfl

theorem run_advance (f : Token → Parser β) (c : Cursor) : (advance >>= f) c = f c.current c.next := rfl

theorem run_expect {k : TokenKind} (h : c.kind = k) : expect k c = .ok c.current c.next := by
  rw [expect, expectOr, run_get, if_pos h]
  rfl

theorem run_discard_expect {k : TokenKind} (h : c.kind = k) (f : PUnit → Parser β) :
    (discard (expect k) >>= f) c = f ⟨⟩ c.next := by
  rw [discard_bind, run_bind (run_expect h)]

theorem run_discard_advance (f : PUnit → Parser β) (c : Cursor) :
    (discard advance >>= f) c = f ⟨⟩ c.next := by
  rw [discard_bind, run_advance]

/-- A loop goes on as long as its steps do. -/
theorem run_go_on {step : σ → Parser (σ ⊕ α)} {s s' : σ} {d : Cursor} {r : EStateM.Result Failure Cursor α}
    (h : ∃ fuel, c.remaining < fuel ∧ r = repeatWithin step fuel s c) (hstep : step s c = .ok (.inl s') d)
    (hd : c.Before d) : ∃ fuel, d.remaining < fuel ∧ r = repeatWithin step fuel s' d := by
  obtain ⟨fuel, hfuel, rfl⟩ := h
  obtain ⟨n, rfl⟩ := Nat.exists_eq_add_of_lt hfuel
  have hlt := hd.remaining_lt
  refine ⟨c.remaining + n, by omega, ?_⟩
  rw [repeatWithin, run_bind hstep]

theorem run_end {step : σ → Parser (σ ⊕ α)} {s : σ} {a : α} {d : Cursor} {fuel : Nat} (hfuel : 0 < fuel)
    (hstep : step s c = .ok (.inr a) d) : repeatWithin step fuel s c = .ok a d := by
  obtain ⟨n, rfl⟩ := Nat.exists_eq_add_of_lt hfuel
  rw [Nat.zero_add, repeatWithin, run_bind hstep]
  rfl

end Equations

theorem exists_of_bind {c c' : Cursor} {b : β} (h : (m >>= f) c = .ok b c') :
    ∃ a s, m c = .ok a s ∧ f a s = .ok b c' := by
  cases hr : m c with
  | error e s => simp [Bind.bind, EStateM.bind, hr] at h
  | ok a s =>
    simp only [Bind.bind, EStateM.bind, hr] at h
    exact ⟨a, s, rfl, h⟩

def succeeds (m : Parser α) (c : Cursor) : Bool :=
  match m c with
  | .ok _ _ => true
  | .error _ _ => false

theorem exists_of_succeeds (m : Parser α) (c : Cursor) (h : succeeds m c = true) :
    ∃ a c', m c = .ok a c' := by
  unfold succeeds at h
  split at h
  next a c' hrun => exact ⟨a, c', hrun⟩
  next => cases h

end Parser

end ScriptAnalysis
