import EntityQuery.Json.Token

/-!
# Json/Document — assembling the tokens of a text into a tree

The tokens are taken one by one against a stack of open containers (`Assembly.step`), and what may
come next is part of the state. A token that cannot stand where it does closes every open container
on the spot: the innermost one keeps the fault, and nothing after it is looked at. A container
nested deeper than `maxDepth` is assembled all the same, but only to be passed over.
-/

namespace EntityQuery

/-- A document: one value, and the fault of whatever follows it. -/
structure Document where
  /-- The value. -/
  root : Node
  /-- The fault of a document that goes on after its value. -/
  trailing : Option Fault

namespace Assembly

/-- The parts of an open container, from the last one back. -/
inductive Parts where
  | items (earlier : List Node)
  | members (earlier : Members)
  /-- Members, and a key whose value is still to come. -/
  | keyed (earlier : Members) (key : Except Fault String)

/-- An open container. -/
structure Frame where
  /-- How many containers it lies in. -/
  depth : Nat
  /-- The fault of the first container that is nested too deep, if this one lies that deep. -/
  tooDeep : Option Fault
  /-- What it holds so far. -/
  parts : Parts

/-- What may come next. -/
inductive Want where
  | value
  | valueOrClose
  | key
  | keyOrClose
  | colon
  | commaOrClose

/-- How far the tokens have been taken. -/
inductive State where
  /-- Inside the value. -/
  | reading (want : Want) (stack : List Frame)
  /-- The value is complete. -/
  | complete (root : Node)
  /-- Nothing more is looked at. -/
  | stopped (document : Document)

/-! ## Containers -/

/-- Adds a value to the parts it belongs to. -/
def Parts.add (node : Node) : Parts → Parts
  | .items earlier => .items (node :: earlier)
  | .members earlier => .members earlier
  | .keyed earlier key => .members ((key, node) :: earlier)

/-- The container that parts make up. -/
def Parts.node (stop : Option Fault) : Parts → Node
  | .items earlier => .arr earlier.reverse stop
  | .members earlier => .obj earlier.reverse stop
  | .keyed earlier _ => .obj earlier.reverse stop

/-- Closes a container. -/
def Frame.close (stop : Option Fault) (frame : Frame) : Node :=
  let node := frame.parts.node stop
  match frame.tooDeep with
  | none => node
  | some fault => .unreadable fault node.skipFault

/-- Opens a container, whose bracket starts the text `here`. -/
def push (parts : Parts) (here : List Char) : List Frame → List Frame
  | [] => [⟨0, none, parts⟩]
  | outer :: rest =>
      let depth := outer.depth + 1
      let tooDeep :=
        if depth < maxDepth then none
        else match outer.tooDeep with
          | none => some (.faultAt here)
          | some fault => some fault
      ⟨depth, tooDeep, parts⟩ :: outer :: rest

/-- A value has been read. -/
def deliver (node : Node) : List Frame → State
  | [] => .complete node
  | frame :: rest => .reading .commaOrClose ({ frame with parts := frame.parts.add node } :: rest)

/-- Puts a value into the innermost container and closes them all. -/
def collapse (node : Node) (stack : List Frame) : Node :=
  stack.foldl (fun node frame => { frame with parts := frame.parts.add node }.close none) node

/-- A value is due and breaks off. -/
def stopAtValue (fault skipped : Fault) (stack : List Frame) : State :=
  .stopped ⟨collapse (.unreadable fault (some skipped)) stack, none⟩

/-- The innermost container cannot go on. -/
def stopInside (fault : Fault) : List Frame → State
  | [] => stopAtValue fault fault []
  | frame :: rest => .stopped ⟨collapse (frame.close (some fault)) rest, none⟩

/-! ## One token -/

/-- A value is due. -/
def takeValue (token : Token) (stack : List Frame) : State :=
  match token.lexeme with
  | .text (.ok value) => deliver (.str value) stack
  | .text (.error fault) => deliver (.unreadable fault none) stack
  | .scalar node => deliver node stack
  | .openArr => .reading .valueOrClose (push (.items []) token.here stack)
  | .openObj => .reading .keyOrClose (push (.members []) token.here stack)
  | .broken fault skipped => stopAtValue fault skipped stack
  | _ => stopAtValue (.faultAt token.here) (.faultAt token.here) stack

/-- A key is due in the innermost container. -/
def takeKey (token : Token) (stack : List Frame) : State :=
  match stack with
  | ⟨depth, tooDeep, .members members⟩ :: rest =>
      match token.lexeme with
      | .text key => .reading .colon (⟨depth, tooDeep, .keyed members key⟩ :: rest)
      | .broken fault skipped =>
          if token.here.head? = some '"' then
            stopAtValue fault skipped (⟨depth, tooDeep, .keyed members (.error fault)⟩ :: rest)
          else stopInside (.faultAt token.here) stack
      | _ => stopInside (.faultAt token.here) stack
  | _ => stopInside (.faultAt token.here) stack

/-- A comma or the end of the innermost container is due. -/
def takeCommaOrClose (token : Token) (stack : List Frame) : State :=
  match stack with
  | [] => stopInside (.faultAt token.here) []
  | frame :: rest =>
      match frame.parts, token.lexeme with
      | .items _, .comma => .reading .value stack
      | .items _, .closeArr => deliver (frame.close none) rest
      | .members _, .comma => .reading .key stack
      | .members _, .closeObj => deliver (frame.close none) rest
      | _, _ => stopInside (.faultAt token.here) stack

/-- Takes one token. -/
def step (state : State) (token : Token) : State :=
  match state with
  | .stopped document => .stopped document
  | .complete root => .stopped ⟨root, some (.faultAt token.here)⟩
  | .reading .value stack => takeValue token stack
  | .reading .valueOrClose stack =>
      match token.lexeme, stack with
      | .closeArr, frame :: rest => deliver (frame.close none) rest
      | _, _ => takeValue token stack
  | .reading .key stack => takeKey token stack
  | .reading .keyOrClose stack =>
      match token.lexeme, stack with
      | .closeObj, frame :: rest => deliver (frame.close none) rest
      | _, _ => takeKey token stack
  | .reading .colon stack =>
      match token.lexeme with
      | .colon => .reading .value stack
      | _ => stopAtValue (.faultAt token.here) (.faultAt token.here) stack
  | .reading .commaOrClose stack => takeCommaOrClose token stack

/-- Ends the tokens: a value that is not complete has ended too early. -/
def finish : State → Document
  | .complete root => ⟨root, none⟩
  | .stopped document => document
  | .reading want stack =>
      let last := match want with
        | .value | .colon => stopAtValue .ended .ended stack
        | _ => stopInside .ended stack
      match last with
      | .stopped document => document
      | _ => ⟨.unreadable .ended (some .ended), none⟩

end Assembly

namespace Document

/-- The document that tokens make up. -/
def ofTokens (tokens : List Token) : Document :=
  Assembly.finish (tokens.foldl Assembly.step (.reading .value []))

/-- The document of a text. -/
def ofText (text : String) : Document :=
  ofTokens (tokens text.toList)

/-- The value of a document, repeated keys merged. -/
def value (document : Document) : Except Fault Json := do
  let value ← document.root.value
  Node.close document.trailing
  .ok value

end Document

/-- The JSON value of a text. -/
def Json.parse (text : String) : Except Fault Json :=
  (Document.ofText text).value

end EntityQuery
