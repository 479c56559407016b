import ScriptAnalysis.Proofs.Grammar.StmtParallel
import ScriptAnalysis.Proofs.Token.Respacing
import ScriptAnalysis.Proofs.Tree.Likeness

/-!
Two streams of tokens that say the same are read alike: reading fails on both for the same cause, or gives
programs whose nodes start at tokens of the same index (`parse_twin`).
-/
namespace ScriptAnalysis

namespace TokenStream

structure Twin (s s' : TokenStream) : Prop where
  size : s.tokens.size = s'.tokens.size
  kind : ∀ i, (s.tokenAt i).kind = (s'.tokenAt i).kind
  value : ∀ i, (s.tokenAt i).value = (s'.tokenAt i).value

def BodyAt (s : TokenStream) (i : Nat) : Prop :=
  (s.tokenAt i).kind = .openCurly ∧ (s.tokenAt (i - 1)).kind = .closeParen

theorem Twin.bodyAt_iff {s s' : TokenStream} (h : s.Twin s') (i : Nat) : s.BodyAt i ↔ s'.BodyAt i := by
  rw [BodyAt, BodyAt, h.kind, h.kind]

inductive Starts (s : TokenStream) : (key : Nat) → Node → Prop
  | token {n : Node} {a : Nat} (ha : a < s.tokens.size) (hbody : ¬ s.BodyAt a)
      (h : n.span.start = (s.tokenAt a).span.start) : Starts s (2 * a) n
  | omitted {n : Node} {k : Nat} (hk : k + 1 < s.tokens.size) (hbody : s.BodyAt (k + 1))
      (h : n.span.start = (s.tokenAt k).span.stop) : Starts s (2 * k + 1) n

theorem Starts.restart {s : TokenStream} {key : Nat} {n m : Node} (h : s.Starts key n)
    (hm : m.span.start = n.span.start) : s.Starts key m := by
  cases h with
  | token ha hbody h => exact .token ha hbody (hm.trans h)
  | omitted hk hbody h => exact .omitted hk hbody (hm.trans h)

end TokenStream

inductive Failure.Like : Failure → Failure → Prop
  | rejected {d d' : Diagnostic} (h : d.cause = d'.cause) : Like (.rejected d) (.rejected d')
  | exhausted : Like .exhausted .exhausted

structure StartsAlike (s s' : TokenStream) (n n' : Node) : Prop where
  id : n.id = n'.id
  starts : ∃ key, s.Starts key n ∧ s'.Starts key n'

/-- Trees over two streams whose nodes start alike. -/
def layout (s s' : TokenStream) : Placing where
  place := StartsAlike s s'
  opener n n' := n.id = n'.id
  place_id h := h.id
  opener_id h := h

def Placing.relation (K : Placing) (hrefers : ∀ r r', K.refers r r') (hnames : ∀ x, K.names x) :
    TreeRelation where
  place := K.place
  opener := K.opener
  type := TypeExpr.Like K
  expr := Expr.Like K
  stmt := Stmt.Like K
  typeNode h := h.node
  exprNode h := h.node
  isNamed h := h.isNamed
  isAction h := h.isAction
  name := .name
  container := .container
  int := .int
  float := .float
  string := .string
  symbol hn := .symbol ⟨hn, rfl, hrefers _ _⟩
  paren := .paren
  literal := .literal
  not := .not
  binary := .binary
  assign := .assign
  call := .call
  templateCall := .templateCall
  index := .index
  member := .member
  construct hn hm := .construct hn ⟨hm, rfl, hrefers _ _⟩
  block := .block
  binding hb he := .variable ⟨hb.node, hb.name, hnames _, hb.type⟩ he
  field hb := .field ⟨hb.node, hb.name, hnames _, hb.type⟩
  function hn ho hps hr hm hxs := .function hn ho (hnames _)
    ⟨rfl, rfl, hps.imp fun _ _ hb => ⟨hb.node, hb.name, hnames _, hb.type⟩, hr⟩ hm hxs
  struct hn hbs := .struct hn (hnames _) (hbs.imp fun _ _ hb => ⟨hb.node, hb.name, hnames _, hb.type⟩)
  cls hn ho hss hm hxs := .cls hn ho
    ⟨rfl, rfl, hnames _, hss.imp fun _ _ hs => ⟨hs.name, hnames _, hs.place⟩⟩ hm hxs
  template hn ho hts hps hr hm hxs := .template hn ho
    ⟨hts.imp fun _ _ hb => ⟨hb.node, hb.name, hnames _, hb.type⟩, rfl, hnames _,
      hps.imp fun _ _ hb => ⟨hb.node, hb.name, hnames _, hb.type⟩, hr⟩ hm hxs
  ifThen := .ifThen
  ifElse := .ifElse
  loop := .loop
  ret := .ret
  action := .action

section Cursors

variable {s s' : TokenStream} {c c' d d' : Cursor}

structure Cursor.Twin (s s' : TokenStream) (c c' : Cursor) : Prop where
  stream : c.stream = s
  stream' : c'.stream = s'
  index : c.index = c'.index
  nextId : c.nextId = c'.nextId
  setSuffix : c.setSuffix = c'.setSuffix

namespace Cursor.Twin

variable (hs : s.Twin s')
include hs

theorem kinds : s.tokens.toList.map Token.kind = s'.tokens.toList.map Token.kind := by
  apply List.ext_getElem
  · simpa using hs.size
  · intro i hi hi'
    have hkind := hs.kind i
    rw [List.length_map, Array.length_toList] at hi hi'
    rw [TokenStream.tokenAt, TokenStream.tokenAt, Array.getElem?_eq_getElem hi,
      Array.getElem?_eq_getElem hi'] at hkind
    simpa using hkind

variable (h : Twin s s' c c')
include h

theorem kind : c.kind = c'.kind := by
  have hkind := hs.kind c.index
  rw [← h.stream, ← h.stream', h.index] at hkind
  rw [Cursor.kind, Cursor.kind, current, current, h.index]
  exact hkind

theorem value : c.current.value = c'.current.value := by
  have hvalue := hs.value c.index
  rw [← h.stream, ← h.stream', h.index] at hvalue
  rw [current, current, h.index]
  exact hvalue

theorem kindsAhead : c.kindsAhead = c'.kindsAhead := by
  have hahead : ∀ d : Cursor, d.kindsAhead = (d.stream.tokens.toList.map Token.kind).drop (d.index + 1) := by
    intro d
    simp [Cursor.kindsAhead, List.map_drop, List.take_of_length_le]
  rw [hahead, hahead, h.stream, h.stream', kinds hs, h.index]

theorem ahead : c.ahead = c'.ahead := by
  have hahead : ∀ d : Cursor, d.ahead =
      (((d.stream.tokens.toList.map Token.kind).drop d.index).takeWhile (· ≠ .eof)).length := by
    intro d
    rw [Cursor.ahead, Cursor.words, Token.words, ← List.map_drop, List.takeWhile_map, List.length_map,
      List.length_map]
    rfl
  rw [hahead, hahead, h.stream, h.stream', kinds hs, h.index]

theorem next (hk : c.kind ≠ .eof) : Twin s s' c.next c'.next := by
  rw [next_eq hk, next_eq (h.kind hs ▸ hk)]
  exact ⟨h.stream, h.stream', congrArg (· + 1) h.index, h.nextId, h.setSuffix⟩

end Cursor.Twin

variable (hs : s.Twin s') (hc : c.Twin s s' c')
include hs hc

theorem StartsAlike.of_token (hd : d.Twin s s' d') (hk : c.kind ≠ .eof) (hbody : ¬ c.AtBody)
    (x x' : Position) :
    StartsAlike s s' ⟨⟨d.nextId⟩, ⟨c.position, x⟩⟩ ⟨⟨d'.nextId⟩, ⟨c'.position, x'⟩⟩ := by
  obtain rfl := hc.stream
  obtain rfl := hc.stream'
  have hlt := Cursor.lt_size hk
  have hbody : ¬ c.stream.BodyAt c.index := hbody
  refine ⟨congrArg NodeId.mk hd.nextId, 2 * c.index, .token hlt hbody rfl, ?_⟩
  rw [hs.bodyAt_iff, hc.index] at hbody
  rw [hs.size] at hlt
  rw [hc.index] at hlt ⊢
  exact .token hlt hbody rfl

theorem StartsAlike.of_body (hbody : c.AtBody) :
    StartsAlike s s' ⟨⟨c.nextId⟩, .empty c.lastEnd⟩ ⟨⟨c'.nextId⟩, .empty c'.lastEnd⟩ := by
  obtain rfl := hc.stream
  obtain rfl := hc.stream'
  have hlt : c.index < c.stream.tokens.size := Cursor.lt_size (by rw [hbody.1]; decide)
  obtain ⟨k, hk⟩ : ∃ k, c.index = k + 1 := by
    cases hi : c.index with
    | zero =>
      have hkinds : c.kind = c.behind := by
        rw [Cursor.kind, Cursor.behind, Cursor.current, hi]
        rfl
      rw [hbody.1, hbody.2] at hkinds
      cases hkinds
    | succ k => exact ⟨k, rfl⟩
  have hbody : c.stream.BodyAt c.index := hbody
  refine ⟨congrArg NodeId.mk hc.nextId, 2 * k + 1, ?_, ?_⟩
  · rw [hk] at hlt hbody
    exact .omitted hlt hbody (Cursor.lastEnd_eq hk (Nat.lt_of_succ_lt hlt))
  · rw [hs.bodyAt_iff, hk] at hbody
    rw [hs.size, hk] at hlt
    exact .omitted hlt hbody (Cursor.lastEnd_eq (hc.index ▸ hk) (Nat.lt_of_succ_lt hlt))

end Cursors

/-- Streams that say the same, cursors at the same index of them, and trees whose nodes start alike. -/
def TokenStream.Twin.pairing {s s' : TokenStream} (hs : s.Twin s') : Pairing where
  toTreeRelation := (layout s s').relation (fun _ _ => trivial) fun _ => trivial
  near := Cursor.Twin s s'
  blame := Eq
  stream h h' := h.stream.trans h'.stream.symm
  kind h := h.kind hs
  value h _ := h.value hs
  setSuffix h := h.setSuffix
  length h := h.ahead hs
  lookahead h _ := congrArg _ (h.kindsAhead hs)
  next h := h.next hs
  fresh h := ⟨h.stream, h.stream', h.index, congrArg (· + 1) h.nextId, h.setSuffix⟩
  allow h _ := ⟨h.stream, h.stream', h.index, h.nextId, rfl⟩
  back h h' := ⟨h'.stream, h'.stream', h.index, h'.nextId, h'.setSuffix⟩
  start hc hd := StartsAlike.of_token hs hc hd
  restart hn hd _ _ := by
    obtain ⟨_, key, hkey, hkey'⟩ := hn
    exact ⟨congrArg NodeId.mk hd.nextId, key, hkey.restart rfl, hkey'.restart rfl⟩
  omitted hc := StartsAlike.of_body hs hc
  opens h _ _ := congrArg NodeId.mk h.nextId
  blame_refl _ := rfl
  blame_unexpected h := congrArg _ (h.value hs)
  blame_because h _ := by rw [h.value hs]
  blame_action h _ := by rw [Expr.render_of_like _ h]

namespace TokenStream

/-- What the tokens of a stream say, and what its closing token says. -/
def readings (s : TokenStream) : List (TokenKind × String) × (TokenKind × String) :=
  (s.tokens.toList.map Token.reading, s.last.reading)

theorem readings_ofList (ts : List Token) (file : String) : (ofList ts file).readings =
    match (ts.map Token.reading).getLast? with
    | none => ([], (.eof, "EOF"))
    | some r => if r.1 = .eof then ((ts.map Token.reading).dropLast, r)
      else (ts.map Token.reading, (.eof, "EOF")) := by
  rw [ofList, List.getLast?_map]
  cases ts.getLast? with
  | none => rfl
  | some t =>
    show readings (dite (t.kind = .eof) _ _) = ite (t.kind = .eof) _ _
    split
    · simp [readings, List.map_dropLast]
    · simp [readings, Token.endAt, Token.reading]

theorem reading_tokenAt (s : TokenStream) (i : Nat) :
    (s.tokenAt i).reading = s.readings.1[i]?.getD s.readings.2 := by
  simp only [tokenAt, readings, List.getElem?_map, Array.getElem?_toList]
  cases s.tokens[i]? <;> rfl

theorem twin_of_readings {s s' : TokenStream} (h : s.readings = s'.readings) : s.Twin s' := by
  have hat : ∀ i, (s.tokenAt i).reading = (s'.tokenAt i).reading := fun i => by
    rw [reading_tokenAt, reading_tokenAt, h]
  refine ⟨?_, fun i => congrArg Prod.fst (hat i), fun i => congrArg Prod.snd (hat i)⟩
  simpa [readings] using congrArg (fun r => r.1.length) h

theorem twin_ofList {ts ts' : List Token} (h : ts.map Token.reading = ts'.map Token.reading)
    (file : String) : (ofList ts file).Twin (ofList ts' file) := by
  apply twin_of_readings
  rw [readings_ofList, readings_ofList, h]

end TokenStream

/-- Streams that say the same are read alike. -/
theorem parse_twin {ts ts' : List Token} (h : ts.map Token.reading = ts'.map Token.reading)
    (file : String) : Parser.Meets (TokenStream.twin_ofList h file).pairing
      (fun p p' _ => p.Like (layout (.ofList ts file) (.ofList ts' file)) p')
      (Program.parse ts file) (Program.parse ts' file) := by
  have hstart : Cursor.Twin (.ofList ts file) (.ofList ts' file) (.start ts file) (.start ts' file) :=
    ⟨rfl, rfl, rfl, rfl, rfl⟩
  refine (Parser.pairs_program (A := (TokenStream.twin_ofList h file).pairing) hstart).mono ?_
  rintro p p' d ⟨hid, hid', hbody⟩
  exact ⟨hid.trans hid'.symm, hbody⟩

end ScriptAnalysis
