import ScriptAnalysis.Typing.Obligation

/-!
Inputs by their positions. A goal lists the attributes it waits for, and what is done for it reads them by
number; here the numbers are shown to be right, so that a goal reads the attributes that it means.
-/
namespace ScriptAnalysis

namespace Reaction

variable {inputs outputs : List Attribute} {i : Nat} {a : Attribute}

theorem typeAt_eq (h : inputs[i]? = some a) (next : Ty → Reaction) : typeAt inputs i next = readType a next := by
  rw [typeAt, withInput, h]

theorem scopeAt_eq (h : inputs[i]? = some a) (next : ScopeId → Reaction) :
    scopeAt inputs i next = readScope a next := by
  rw [scopeAt, withInput, h]

theorem mapM_range' (front middle back : List Attribute) :
    (List.range' front.length middle.length).mapM ((front ++ middle ++ back)[·]?) = some middle := by
  induction middle generalizing front with
  | nil => rfl
  | cons a rest ih =>
    have hrest := ih (front ++ [a])
    simp only [List.append_assoc, List.length_append, List.length_singleton, List.cons_append,
      List.nil_append] at hrest
    simp [List.range'_succ, List.mapM_cons, hrest]

/-- The types of inputs that stand one after the other. -/
theorem typesAt_range' (front middle back : List Attribute) {k n : Nat} (h : inputs = front ++ middle ++ back)
    (hk : k = front.length) (hn : n = middle.length) (next : List Ty → Reaction) :
    typesAt inputs (List.range' k n) next = readTypes middle next := by
  rw [typesAt, withInputs, h, hk, hn, mapM_range']

theorem typesAt_all {n : Nat} (hn : n = inputs.length) (next : List Ty → Reaction) :
    typesAt inputs (List.range n) next = readTypes inputs next := by
  rw [List.range_eq_range']
  exact typesAt_range' [] inputs [] (by simp) rfl hn next

theorem typesAt_tail (a : Attribute) (as : List Attribute) (next : List Ty → Reaction) :
    typesAt (a :: as) (List.range' 1 ((a :: as).length - 1)) next = readTypes as next :=
  typesAt_range' [a] as [] (by simp) rfl rfl next

theorem allFlagsAt_all (next : Bool → Reaction) :
    allFlagsAt inputs (List.range inputs.length) next = readAllFlags inputs next := by
  have h : (List.range' 0 inputs.length).mapM (inputs[·]?) = some inputs := by
    simpa using mapM_range' [] inputs []
  rw [allFlagsAt, withInputs, List.range_eq_range', h]

theorem overloadedCall_eq (node : Node) (overloads : List DeclId) (received : List Ty) (arity : Nat) :
    overloadedCall node overloads received arity (overloads.map .typeOfDecl) [.typeOf node.id] =
      readTypes (overloads.map .typeOfDecl) fun types =>
        match selectOverload received (overloads.zip types) with
        | some (d, result) => .set (.typeOf node.id) (.type result) (.set (.declOf node.id) (.decl d) .done)
        | none => refuse (.atNode (.noMatchingOverload arity received.length) node) [.typeOf node.id] :=
  typesAt_all (by simp) _

end Reaction

namespace Goal

open Attribute Reaction

variable (tables : Tables) (node : Node)

theorem buildConstructor_eq (composite target : Attribute) (fields : List Attribute) :
    buildConstructor (composite :: fields) [target] =
      readType composite fun t => readTypes fields fun ts => .set target (.type (.function t ts)) .done :=
  congrArg (readType composite) (funext fun _ => typesAt_tail composite fields _)

theorem react_blockReturns (containers : List NodeId) :
    (blockReturns containers).react tables node =
      readAllFlags (containers.map returnsOf) fun b => .set (returnsOf node.id) (.flag b) .done :=
  allFlagsAt_all _

theorem react_functionType (d : DeclId) (result : NodeId) (parameters : List NodeId) :
    (functionType d result parameters).react tables node =
      readType (valueOf result) fun r => readTypes (parameters.map valueOf) fun ps =>
        .set (typeOfDecl d) (.type (.function r ps)) .done :=
  congrArg (readType (valueOf result)) (funext fun _ => typesAt_tail _ _ _)

theorem react_templateType (d : DeclId) (result : NodeId) (typeParameters : List DeclId)
    (parameters : List NodeId) :
    (templateType d result typeParameters parameters).react tables node =
      readType (valueOf result) fun r =>
        readTypes (typeParameters.map declaredBy ++ parameters.map valueOf) fun ps =>
          .set (typeOfDecl d) (.type (.template r typeParameters.length ps)) .done :=
  congrArg (readType (valueOf result)) (funext fun _ => typesAt_tail _ _ _)

theorem react_literal (c : Container) (elements : List Node) :
    (literal c elements).react tables node =
      readTypes (elements.map (typeOf ·.id)) fun types =>
        literalType c node [typeOf node.id] none (elements.zip types) :=
  typesAt_all (by simp [inputs]) _

/-- The inputs of a call: the callee, the arguments and what tells where its overloads are declared. -/
theorem site_of_inputs_call (callee : Callee) (arguments : List Node) :
    ((call callee arguments).inputs node)[arguments.length + 1]? = callee.site.map OverloadSite.attr := by
  cases h : callee.site <;> simp [inputs, h]

theorem react_call (callee : Callee) (arguments : List Node) :
    (call callee arguments).react tables node =
      readType (typeOf callee.id) fun
        | .function result parameters =>
          readTypes (arguments.map (typeOf ·.id)) fun received =>
          overloadScopes tables ((call callee arguments).inputs node) callee.site (arguments.length + 1)
            fun scopes => decideCall node [typeOf node.id] callee.id arguments result parameters received
              (callee.overloads tables scopes)
        | _ => refuse (.atNode (.notCallable callee.text) node) [typeOf node.id] := by
  have hreceived : ∀ next, typesAt ((call callee arguments).inputs node) (List.range' 1 arguments.length) next =
      readTypes (arguments.map (typeOf ·.id)) next :=
    typesAt_range' [typeOf callee.id] _ (callee.site.map OverloadSite.attr).toList rfl rfl (List.length_map _).symm
  simp only [react, compute, checkCall, hreceived]
  rfl

theorem react_templateCall (callee : NodeId) (text : String) (types : List NodeId) (arguments : List Node) :
    (templateCall callee text types arguments).react tables node =
      readType (typeOf callee) fun
        | .template result count parameters =>
          attempt (Ty.splitParameters count parameters) fun (placeholders, expected) =>
            if expected.length ≠ arguments.length then
              refuse (.atNode (.wrongArity expected.length arguments.length) node) [typeOf node.id]
            else if count ≠ types.length then
              refuse (.atNode (.wrongTypeArgumentCount count types.length) node) [typeOf node.id]
            else
              readTypes (types.map valueOf) fun given =>
              readTypes (arguments.map (typeOf ·.id)) fun received =>
                let bindings := placeholderBindings placeholders given
                checkArguments 0 arguments received (Ty.substituteAll bindings expected) <|
                .set (typeOf node.id) (.type (result.substitute bindings)) .done
        | _ => refuse (.atNode (.notATemplate text) node) [typeOf node.id] := by
  have hgiven : ∀ next, typesAt ((templateCall callee text types arguments).inputs node)
      (List.range' 1 types.length) next = readTypes (types.map valueOf) next :=
    typesAt_range' [typeOf callee] _ (arguments.map (typeOf ·.id)) (by simp [inputs]) rfl (List.length_map _).symm
  have hreceived : ∀ next, typesAt ((templateCall callee text types arguments).inputs node)
      (List.range' (1 + types.length) arguments.length) next = readTypes (arguments.map (typeOf ·.id)) next :=
    typesAt_range' (typeOf callee :: types.map valueOf) _ [] (by simp [inputs]) (by simp [Nat.add_comm])
      (List.length_map _).symm
  simp only [react, compute, checkTemplateCall, hgiven, hreceived]
  rfl

end Goal

end ScriptAnalysis
