import ScriptAnalysis.Proofs.Grammar.Spans
import ScriptAnalysis.Proofs.Grammar.Twin
import ScriptAnalysis.Proofs.Typing.Resolved
import ScriptAnalysis.Proofs.Typing.Walk.Relaid

/-!
Layout does not influence the analysis. Texts that fall into tokens of the same kinds and values are read
into programs that differ in places only, and what is found of them is the same, in the same order
(`Program.analyse_relaid`). For the order of findings it matters that nodes which start at different tokens
start in the order of these tokens, whatever lies between them.
-/
namespace ScriptAnalysis

/-- Related lists stay related when they are sorted by orders that agree on related items. -/
theorem forall₂_mergeSort {α β : Type} {R : α → β → Prop} {r : α → α → Bool} {s : β → β → Bool}
    (hrs : ∀ {a a' b b'}, R a b → R a' b' → r a a' = s b b') {as : List α} {bs : List β}
    (h : List.Forall₂ R as bs) : List.Forall₂ R (as.mergeSort r) (bs.mergeSort s) := by
  obtain ⟨zs, hR, rfl, rfl⟩ : ∃ zs : List (α × β), (∀ z ∈ zs, R z.1 z.2) ∧ zs.map Prod.fst = as ∧
      zs.map Prod.snd = bs := by
    induction h with
    | nil => exact ⟨[], by simp, rfl, rfl⟩
    | @cons a b _ _ hab _ ih =>
      obtain ⟨zs, hR, rfl, rfl⟩ := ih
      exact ⟨(a, b) :: zs, by simpa [hab] using hR, rfl, rfl⟩
  -- both sides are images of the list of pairs, sorted by either component
  have hfst := List.map_mergeSort (r := fun x y => r x.1 y.1) (s := r) (f := Prod.fst) (l := zs)
    fun _ _ _ _ => rfl
  have hsnd := List.map_mergeSort (r := fun x y => r x.1 y.1) (s := s) (f := Prod.snd) (l := zs)
    fun x hx y hy => hrs (hR x hx) (hR y hy)
  rw [← hfst, ← hsnd, List.forall₂_map_left_iff, List.forall₂_map_right_iff, List.forall₂_same]
  exact fun z hz => hR z (List.mem_mergeSort.1 hz)

namespace TokenStream

namespace Starts

variable {s : TokenStream} {n m : Node} {x y : Nat}

theorem offset_lt (hs : s.Ordered) (hn : s.Starts x n) (hm : s.Starts y m) (hxy : x < y) :
    n.span.start.offset < m.span.start.offset := by
  cases hn with
  | @token _ a ha _ hn =>
    have hstop := hs.nonempty ha
    cases hm with
    | @token _ b hb _ hm =>
      have hapart := hs.apart (show a < b by omega) hb
      rw [hn, hm]
      omega
    | @omitted _ k hk _ hm =>
      rw [hn, hm]
      rcases Nat.lt_or_eq_of_le (show a ≤ k by omega) with hlt | rfl
      · have hapart := hs.apart hlt (Nat.lt_of_succ_lt hk)
        have hnext := hs.nonempty (Nat.lt_of_succ_lt hk)
        omega
      · exact hstop
  | @omitted _ k hk hbody hn =>
    have hnext := hs.apart (show k < k + 1 by omega) hk
    have hstop := hs.nonempty hk
    cases hm with
    | @token _ b hb hb' hm =>
      -- a body starts at the token behind the end of this one, so the other node starts further on
      have hne : b ≠ k + 1 := fun h => hb' (h ▸ hbody)
      have hapart := hs.apart (show k + 1 < b by omega) hb
      rw [hn, hm]
      omega
    | @omitted _ l hl _ hm =>
      have hapart := hs.apart (show k < l by omega) (Nat.lt_of_succ_lt hl)
      have hlast := hs.nonempty (Nat.lt_of_succ_lt hl)
      rw [hn, hm]
      omega

theorem offset_eq (hn : s.Starts x n) (hm : s.Starts x m) :
    n.span.start.offset = m.span.start.offset := by
  generalize hy : x = y at hm
  cases hn with
  | @token _ a _ _ hn =>
    cases hm with
    | @token _ b _ _ hm =>
      obtain rfl : a = b := by omega
      rw [hn, hm]
    | omitted => omega
  | @omitted _ k _ _ hn =>
    cases hm with
    | token => omega
    | @omitted _ l _ _ hm =>
      obtain rfl : k = l := by omega
      rw [hn, hm]

theorem offset_le_iff (hs : s.Ordered) (hn : s.Starts x n) (hm : s.Starts y m) :
    n.span.start.offset ≤ m.span.start.offset ↔ x ≤ y := by
  rcases Nat.lt_trichotomy x y with hlt | rfl | hlt
  · exact iff_of_true (hn.offset_lt hs hm hlt).le hlt.le
  · exact iff_of_true (hn.offset_eq hm).le le_rfl
  · exact iff_of_false (hm.offset_lt hs hn hlt).not_ge hlt.not_ge

end Starts

end TokenStream

theorem Draft.Relaid.resolve {K : Placing} {d d' : Draft} (h : d.Relaid K d') {res : Resolution}
    (hres : Rule.resolve d.attributes d.rules = .ok res) (hstuck : res.stuck = []) :
    ∃ res', Rule.resolve d'.attributes d'.rules = .ok res' ∧ res.attributes = res'.attributes ∧
      List.Forall₂ (Diagnostic.Like K.place) res.diagnostics res'.diagnostics := by
  have hrules : List.Forall₂ (Rule.Like (.relaid K.place)) d.rules d'.rules :=
    List.rel_map (fun _ _ ho => ho.rule h.tables) h.obligations
  rw [← h.attributes]
  exact Rule.resolve_of_like hrules hres hstuck

def Placing.sameNumber : Placing where
  place n n' := n.id = n'.id
  opener n n' := n.id = n'.id
  place_id h := h
  opener_id h := h

/-- Analyses that say the same, up to places. -/
structure Analysis.Relaid (a a' : Analysis) : Prop where
  attributes : a.attributes = a'.attributes
  scopes : a.tables.scopes = a'.tables.scopes
  declarations : a.tables.declarations.unplaced = a'.tables.declarations.unplaced
  signatures : a.tables.signatures = a'.tables.signatures
  diagnostics : List.Forall₂ (fun x x' => x.cause = x'.cause ∧ x.node = x'.node) a.diagnostics a'.diagnostics

theorem Draft.after_of_ok {m : Walk Unit} {d : Draft} (h : m {} = .ok () d) : Draft.after m = .ok d := by
  rw [Draft.after, h]

theorem Program.analyse_eq_ok {p : Program} {d : Draft} {res : Resolution}
    (hd : p.walk Walk.reference {} = .ok () d) (hres : Rule.resolve d.attributes d.rules = .ok res) :
    p.analyse = .ok
      { tables := d.tables
        attributes := res.attributes
        diagnostics := (d.diagnostics ++ res.diagnostics).mergeSort
          fun a b => a.span.start.offset ≤ b.span.start.offset } := by
  have hafter : Draft.after (do Builtin.declareAll; Walk.program p) = .ok d := Draft.after_of_ok hd
  rw [analyse, hafter]
  simp only [Draft.resolve, hres, bind, Except.bind, pure, Except.pure]

/-- Programs whose nodes start in the same order are analysed alike. -/
theorem Program.analysis_of_like {K : Placing} (hK : ∀ i, K.calls i) {p p' : Program} (hp : p.Numbered)
    (h : p.Like K p')
    (horder : ∀ {n n' m m'}, K.place n n' → K.place m m' →
      (n.span.start.offset ≤ m.span.start.offset ↔ n'.span.start.offset ≤ m'.span.start.offset)) :
    ∃ a a', p.analyse = .ok a ∧ p'.analyse = .ok a' ∧ a.Relaid a' := by
  obtain ⟨d, hwalk, hd⟩ := Program.drafted hp
  obtain ⟨res, hres, hstuck, _⟩ := Rule.resolve_of_kept (hd.kept hp)
  obtain ⟨d', hwalk', hrelaid⟩ := relaid_of_like hK h (walk_of_after hwalk)
  obtain ⟨res', hres', hattributes, htold⟩ := hrelaid.resolve hres hstuck
  have hsorted := forall₂_mergeSort (R := Diagnostic.Like K.place)
    (r := fun x y => x.span.start.offset ≤ y.span.start.offset)
    (s := fun x y => x.span.start.offset ≤ y.span.start.offset) (fun hx hy => ?_)
    (List.rel_append hrelaid.diagnostics htold)
  · refine ⟨_, _, analyse_eq_ok (walk_of_after hwalk) hres, analyse_eq_ok hwalk' hres', hattributes,
      hrelaid.tables.scopes, hrelaid.tables.declarations, hrelaid.tables.signatures, hsorted.imp fun x x' hx => ?_⟩
    cases hx with
    | atNode hn => exact ⟨rfl, congrArg some (K.place_id hn)⟩
  · cases hx with
    | atNode hx =>
      cases hy with
      | atNode hy => exact decide_eq_decide.2 (horder hx hy)

/-- Layout does not influence the analysis. -/
theorem Program.analyse_relaid {source source' file : String} {ts ts' : List Token}
    (hlen : Text.bytes source.toList < 2 ^ 32) (hlen' : Text.bytes source'.toList < 2 ^ 32)
    (hts : Token.tokenize source file = .ok ts) (hts' : Token.tokenize source' file = .ok ts')
    (h : ts.map Token.reading = ts'.map Token.reading) :
    (∃ e e' c c', parse ts file = .error e c ∧ parse ts' file = .error e' c' ∧ e.Like e') ∨
      ∃ p p' c c', parse ts file = .ok p c ∧ parse ts' file = .ok p' c' ∧ p.Like .sameNumber p' ∧
        ∃ a a', p.analyse = .ok a ∧ p'.analyse = .ok a' ∧ a.Relaid a' := by
  have hs := (Token.tiles_of_tokenize hlen hts).ordered
  have hs' := (Token.tiles_of_tokenize hlen' hts').ordered
  have htwin := parse_twin h file
  generalize hp : parse ts file = r at htwin
  generalize hp' : parse ts' file = r' at htwin
  cases htwin with
  | rejected hcause => exact .inl ⟨_, _, _, _, rfl, rfl, .rejected hcause⟩
  | @ok p p' c c' _ hlike =>
    refine .inr ⟨p, p', c, c', rfl, rfl, ?_, analysis_of_like (fun _ => trivial) (numbered_of_parse hp) hlike ?_⟩
    · have hle : (layout (.ofList ts file) (.ofList ts' file)).Le .sameNumber :=
        ⟨fun hn => hn.id, fun hn => hn, fun _ => trivial, fun _ => trivial⟩
      exact ⟨hlike.node, Stmt.likeAll_mono hle _ hlike.body⟩
    · rintro n n' m m' ⟨_, x, hx, hx'⟩ ⟨_, y, hy, hy'⟩
      rw [hx.offset_le_iff hs hy, hx'.offset_le_iff hs' hy']

namespace Token

/-- Whether two texts fall into tokens of the same kinds and values. -/
def agrees (file source source' : String) : Bool :=
  match tokenize source file, tokenize source' file with
  | .ok ts, .ok ts' => ts.map reading = ts'.map reading
  | _, _ => false

theorem exists_of_agrees (file source source' : String) (h : agrees file source source' = true) :
    ∃ ts ts', tokenize source file = .ok ts ∧ tokenize source' file = .ok ts' ∧
      ts.map reading = ts'.map reading := by
  unfold agrees at h
  split at h
  · next ts ts' hts hts' => exact ⟨ts, ts', hts, hts', of_decide_eq_true h⟩
  · cases h

end Token

/-- A function without a written result, an unknown name behind it, and a value that does not fit. -/
def tightText : String := "fun f(a:Int){return} g(1);var x:Int=\"é\";f(true)"

def looseText : String :=
  "/*é*/fun f ( a : Int )\n{ return }\n// now\ng ( 1 )\n\nvar x : Int = \"é\"\nf(\ntrue)\n"

/-- Both texts are read, and what is found of them is the same. -/
theorem Program.analyse_relaid_lines :
    Text.bytes tightText.toList < 2 ^ 32 ∧ Text.bytes looseText.toList < 2 ^ 32 ∧
      ∃ ts ts', Token.tokenize tightText "main" = .ok ts ∧ Token.tokenize looseText "main" = .ok ts' ∧
        ts.map Token.reading = ts'.map Token.reading ∧
        ∃ p p' c c', parse ts "main" = .ok p c ∧ parse ts' "main" = .ok p' c' ∧
          p.Like .sameNumber p' ∧ ∃ a a', p.analyse = .ok a ∧ p'.analyse = .ok a' ∧ a.Relaid a' := by
  have hlen : Text.bytes tightText.toList < 2 ^ 32 := by decide +kernel
  have hlen' : Text.bytes looseText.toList < 2 ^ 32 := by decide +kernel
  obtain ⟨ts, ts', hts, hts', h⟩ := Token.exists_of_agrees "main" tightText looseText (by decide +kernel)
  obtain ⟨_, p, c, htokens, hp, _⟩ := exists_of_reads "main" tightText (fun p => p.body.length = 4)
    (by decide +kernel)
  obtain rfl := Except.ok.inj (hts.symm.trans htokens)
  refine ⟨hlen, hlen', ts, ts', hts, hts', h, ?_⟩
  rcases analyse_relaid hlen hlen' hts hts' h with ⟨e, _, c', _, herror, _⟩ | hread
  · rw [hp] at herror
    cases herror
  · exact hread

end ScriptAnalysis
