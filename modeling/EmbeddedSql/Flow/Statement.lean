/-
# Statements that bind or grow variables

Three kinds of statement are recognized: declarations of the tracked types, assignments to tracked
names, and chains of calls on tracked builders.  Each handler answers nothing where its statement
does not stand, and otherwise the state after it and the place to go on at.  What a handler does not
take as the value of a variable it hands over to be read loosely, after the variable was changed.
-/
import EmbeddedSql.Flow.Loose

namespace EmbeddedSql

/-- What is known about the target of a binding. -/
structure Binding where
  name : String
  line : Nat
  /-- Is the target's type one of the builder types? -/
  builderType : Bool
  /-- Is the type left to be inferred? -/
  inferred : Bool
  /-- Is the binding an assignment to a name that exists? -/
  reassign : Bool

namespace FlowContext

/-! ## Builder chains -/

/-- Append the argument list between `opening` and `closing` to a builder.  An argument that is no
expression as a whole counts as one unknown value. -/
def append (cx : FlowContext) (s : FlowState) (name : String) (opening closing : Nat) :
    Except FlowError FlowState := do
  if closing = opening + 1 then return s
  let e ← cx.expression s.arena (opening + 1)
  let last ← cx.fetch (closing - 1)
  let s ←
    if e.stop = closing then
      pure ((s.commit e).modify name (·.extend e.fragments last.endLine))
    else do
      let first ← cx.fetch (opening + 1)
      let source := cx.scope.sourceText (opening + 1) closing
      pure (s.modify name (·.extend [.unknown source first.startLine] last.endLine))
  cx.scanLoose s (opening + 1) closing

/-- Apply one call of a chain, whose method name stands at `i` and whose parentheses stand at
`opening` and `closing`. -/
def applyCall (cx : FlowContext) (s : FlowState) (name : String) (i opening closing : Nat) :
    Except FlowError FlowState := do
  let method ← cx.fetch i
  if method.text == "append" then cx.append s name opening closing
  else if method.text == "setLength" && cx.scope.sourceText (opening + 1) closing == "0" then
    cx.reset s name method.startLine
  else if method.text == "toString" then return s
  else cx.scanLoose s (opening + 1) closing

/-- Read the rest of a statement loosely from place `i` on; gives the place where it stops. -/
def endChain (cx : FlowContext) (s : FlowState) (stops : List String) (i : Nat) :
    Except FlowError (FlowState × Nat) :=
  let stop := cx.scope.skipToStop stops i
  (cx.scanLoose s i stop).map (·, stop)

/-- Apply the calls on a builder that are chained from place `i` on, and read the rest of the
statement loosely; gives the place where it stops. -/
def applyChain (cx : FlowContext) (s : FlowState) (name : String) (stops : List String) (i : Nat) :
    Except FlowError (FlowState × Nat) :=
  if h : cx.scope.isPunct i "." = true then
    have : i < cx.scope.size := Brackets.lt_size_of_any h
    if cx.scope.isIdent (i + 1) && cx.scope.isPunct (i + 2) "(" then
      match hc : cx.scope.closer? (i + 2) with
      | none => .ok (s, cx.scope.size)
      | some closing =>
        have : i + 2 < closing := Brackets.lt_of_closer? hc
        cx.applyCall s name (i + 1) (i + 2) closing >>= fun s =>
          applyChain cx s name stops (closing + 1)
    else cx.endChain s stops i
  else cx.endChain s stops i
termination_by cx.scope.size - i

/-! ## Binding -/

/-- The fragments that a builder starts with, given the places of the parentheses of its
construction.  A lone number is a capacity and no content. -/
def initialFragments (cx : FlowContext) (s : FlowState) (opening closing : Nat) :
    Except FlowError (FlowState × List Fragment) := do
  match cx.scope.slice (opening + 1) closing with
  | [] => return (s, [])
  | first :: rest =>
    if rest.isEmpty && first.kind == .other && first.text.toList.head?.any isDigit then
      return (s, [])
    let e ← cx.expression s.arena (opening + 1)
    if e.stop = closing then return (s.commit e, e.fragments)
    return (s, [.unknown (cx.scope.sourceText (opening + 1) closing) first.startLine])

/-- Bind a builder to the construction whose `new` stands at `i`, and apply the calls chained to
it. -/
def bindBuilder (cx : FlowContext) (s : FlowState) (name : String) (line i : Nat) :
    Except FlowError (FlowState × Nat) := do
  let opening := i + 2
  let closing := (cx.scope.closer? opening).getD (cx.scope.size - 1)
  let (s, fragments) ← cx.initialFragments s opening closing
  let last ← cx.fetch (min closing (cx.scope.size - 1))
  let s ← cx.rebind s ⟨name, .builder, line, max line last.endLine, fragments, none⟩
  let s ← cx.scanLoose s (opening + 1) closing
  cx.applyChain s name [";", ","] (closing + 1)

/-- Bind a plain variable to the expression at `rhs`.  An assignment that begins with the variable
itself and a `+` continues its accumulation; any other begins a new one. -/
def bindPlain (cx : FlowContext) (s : FlowState) (binding : Binding) (rhs : Nat) :
    Except FlowError (FlowState × Nat) := do
  let e ← cx.expression s.arena rhs
  let stop := cx.scope.skipToStop [";", ","] e.stop
  let continues := binding.reassign
    && (s.arena.get? binding.name).any (·.kind == .plain)
    && cx.scope.isWord rhs binding.name && cx.scope.isOp (rhs + 1) "+"
  let s := s.commit e
  let last ← cx.lastLine rhs stop
  let s ←
    if continues then pure (s.modify binding.name (·.regrow e.fragments last))
    else
      cx.rebind s
        ⟨binding.name, .plain, binding.line, max binding.line last, e.fragments, none⟩
  (cx.scanLoose s rhs stop).map (·, stop)

/-- Is the value at `rhs` a construction of a builder that can be followed? -/
def constructsBuilder (cx : FlowContext) (binding : Binding) (rhs : Nat) : Bool :=
  cx.scope.isWord rhs "new" && cx.scope.isPunct (rhs + 2) "("
    && (cx.scope.token? (rhs + 1)).any (fun t => t.isIdent && cx.rules.isBuilderType t.text)
    && (binding.builderType || binding.inferred || binding.reassign)

/-- Is the value at `rhs` one that ends the tracking of its target?  Builders bound to anything but a
construction are lost, and so are names of inferred type bound to some new object. -/
def losesTarget (cx : FlowContext) (s : FlowState) (binding : Binding) (rhs : Nat) : Bool :=
  binding.builderType
    || (binding.reassign && (s.arena.get? binding.name).any (·.kind == .builder))
    || (binding.inferred && !binding.reassign && cx.scope.isWord rhs "new")

/-- Bind a name to the value at `rhs`; gives the place where the value ends. -/
def bindValue (cx : FlowContext) (s : FlowState) (binding : Binding) (rhs : Nat) :
    Except FlowError (FlowState × Nat) :=
  if cx.constructsBuilder binding rhs then cx.bindBuilder s binding.name binding.line rhs
  else if cx.losesTarget s binding rhs then do
    let stop := cx.scope.skipToStop [";", ","] rhs
    let s ← cx.discard s binding.name
    (cx.scanLoose s rhs stop).map (·, stop)
  else cx.bindPlain s binding rhs

/-! ## Declarations -/

/-- The place after a statement that stops at `stop`: a semicolon there belongs to it. -/
def afterStatement (cx : FlowContext) (stop : Nat) : Nat :=
  if cx.scope.isPunct stop ";" then stop + 1 else stop

/-- The kind of the variables of a type. -/
def kindOfType (cx : FlowContext) (typeName : String) : VariableKind :=
  if cx.rules.isBuilderType typeName then .builder else .plain

/-- One name of a declaration, at place `k`, with or without a value; gives the place after it. -/
def declarator (cx : FlowContext) (s : FlowState) (typeName : String) (line k : Nat) :
    Except FlowError (FlowState × Nat) := do
  let name ← cx.fetch k
  if cx.scope.isOp (k + 1) "=" then
    cx.bindValue s ⟨name.text, line, cx.rules.isBuilderType typeName, typeName == "var", false⟩
      (k + 2)
  else if typeName != "var" then
    (cx.declare s name.text (cx.kindOfType typeName)).map (·, k + 1)
  else return (s, k + 1)

/-- The names of a declaration from place `k` on; gives the place after the statement.  A name ends
after its own place, so the test for that only bounds the reading. -/
def declarators (cx : FlowContext) (s : FlowState) (typeName : String) (line k : Nat) :
    Except FlowError (FlowState × Nat) := do
  let (s, stop) ← cx.declarator s typeName line k
  if h : cx.scope.isPunct stop "," = true ∧ k < stop + 1 then
    have : stop < cx.scope.size := Brackets.lt_size_of_any h.1
    if cx.scope.isIdent (stop + 1) then
      if cx.scope.endsDeclarator (stop + 2) then declarators cx s typeName line (stop + 1)
      else return (s, stop + 1)
    else return (s, stop)
  else return (s, cx.afterStatement stop)
termination_by cx.scope.size - k

/-- A declaration at place `i`: a tracked type or `var`, and names with or without values. -/
def declaration? (cx : FlowContext) (s : FlowState) (i : Nat) :
    Except FlowError (Option (FlowState × Nat)) :=
  match cx.scope.token? i with
  | none => .ok none
  | some t =>
    let tracked := t.text == "var" || cx.rules.isPlainType t.text || cx.rules.isBuilderType t.text
    if t.isIdent && tracked && cx.scope.isIdent (i + 1) && cx.scope.endsDeclarator (i + 2)
        && cx.scope.atDeclarationBoundary i then
      (cx.declarators s t.text t.startLine (i + 1)).map some
    else .ok none

/-! ## Assignments -/

/-- Add the expression after `+=` to a plain variable. -/
def compoundAssignment (cx : FlowContext) (s : FlowState) (name : String) (rhs : Nat) :
    Except FlowError (FlowState × Nat) := do
  let e ← cx.expression s.arena rhs
  let stop := cx.scope.skipToStop [";"] e.stop
  let s ←
    if (s.arena.get? name).any (·.kind == .plain) then do
      let last ← cx.lastLine rhs stop
      pure ((s.commit e).modify name (·.extend e.fragments last))
    else pure s
  (cx.scanLoose s rhs stop).map (·, cx.afterStatement stop)

/-- The binding of an assignment to a name of this kind. -/
def assignmentTo (cx : FlowContext) (name : String) (line : Nat) (kind : VariableKind) : Binding :=
  { name
    line
    builderType := match kind with
      | .builder => !cx.rules.builderTypes.isEmpty
      | .plain => cx.rules.isBuilderType "var"
    inferred := true
    reassign := true }

/-- An assignment at place `i` to a tracked or declared name. -/
def assignment? (cx : FlowContext) (s : FlowState) (i : Nat) :
    Except FlowError (Option (FlowState × Nat)) :=
  match cx.scope.token? i with
  | none => .ok none
  | some t =>
    match (s.declaredKind? t.text).or ((s.arena.get? t.text).map (·.kind)) with
    | none => .ok none
    | some kind =>
      if !t.isIdent || !cx.scope.atBoundary i then .ok none
      else if cx.scope.isOp (i + 1) "=" then
        (cx.bindValue s (cx.assignmentTo t.text t.startLine kind) (i + 2)).map fun (s, stop) =>
          some (s, cx.afterStatement stop)
      else if cx.scope.isOp (i + 1) "+=" then
        (cx.compoundAssignment s t.text (i + 2)).map some
      else .ok none

/-! ## Calls on builders -/

/-- A chain of calls at place `i` on a tracked builder that begins by appending or by setting the
length.  Under an executing call the builder is reported afterwards. -/
def builderStatement? (cx : FlowContext) (s : FlowState) (i : Nat) :
    Except FlowError (Option (FlowState × Nat)) :=
  match cx.scope.token? i with
  | none => .ok none
  | some t =>
    let tracked := (s.arena.get? t.text).any (·.kind == .builder)
    if t.isIdent && !cx.scope.afterDot i && tracked && cx.scope.isPunct (i + 1) "."
        && cx.scope.isWordIn (i + 2) ["append", "setLength"] && cx.scope.isPunct (i + 3) "(" then do
      let (s, stop) ← cx.applyChain s t.text [";"] (i + 1)
      let s ← if cx.scope.underSink i then cx.reportNamed s t.text else pure s
      return some (s, cx.afterStatement stop)
    else .ok none

end FlowContext

end EmbeddedSql
