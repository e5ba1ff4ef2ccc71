import Placement.Settings.Yaml.Token

/-!
The value of a document.

Lists and mappings nest as the tokens say, and where a value could stand and none does, it is null. A mapping
has texts and integers for names, none of them twice. An anchor names a value, for which aliases may stand
afterwards; where they stand before its end, they are null.
-/

namespace Placement.Yaml

/-- What is left of a document, and what its anchors and handles of tags stand for. -/
structure Reading where
  tokens : List Token
  /-- What handles are short for. -/
  handles : List (String × String) := []
  /-- The numbers of anchors by their names, the last one first. -/
  anchors : List (String × Nat) := []
  /-- The values of anchors by their numbers. -/
  values : List (Nat × Json) := []

namespace Reading

def withTokens (tokens : List Token) (r : Reading) : Reading := { r with tokens }

def next (r : Reading) : Reading := r.withTokens r.tokens.tail

def addAnchor (name : String) (r : Reading) : Nat × Reading :=
  (r.anchors.length, { r with anchors := (name, r.anchors.length) :: r.anchors })

def alias? (name : String) (r : Reading) : Option Json := do
  let n ← r.anchors.lookup name
  return (r.values.lookup n).getD .null

/-- The tag with its handle written out; a named handle has to stand for something. -/
def resolve? (t : Tag) (r : Reading) : Option Tag :=
  match r.handles.lookup t.handle with
  | some meaning => some { t with handle := meaning }
  | none =>
    if t.handle = "!!" then some { t with handle := coreHandle }
    else if Tag.isNamed t.handle then none
    else some t

/-- What stands in front of a value: an anchor and a tag, in either order. -/
structure Properties where
  anchor : Option Nat := none
  tag : Option Tag := none

def properties? (r : Reading) : Option (Properties × Reading) :=
  match r.tokens with
  | .anchor name :: .tag t :: rest => do
    let (n, r) := (r.withTokens rest).addAnchor name
    return ({ anchor := some n, tag := some (← r.resolve? t) }, r)
  | .tag t :: .anchor name :: rest => do
    let (n, r) := (r.withTokens rest).addAnchor name
    return ({ anchor := some n, tag := some (← r.resolve? t) }, r)
  | .anchor name :: rest =>
    let (n, r) := (r.withTokens rest).addAnchor name
    some ({ anchor := some n }, r)
  | .tag t :: rest => do return ({ tag := some (← r.resolve? t) }, r.withTokens rest)
  | _ => some ({}, r)

def isAt (ts : List Token) (r : Reading) : Bool := (r.tokens.head?.map ts.contains).getD false

/-- Whether the next token ends a name or a value of a mapping outside of brackets. -/
def atBlockName (r : Reading) : Bool := r.isAt [.name, .value, .blockEnd]

inductive Name
  | text (t : String)
  | int (i : Int)
deriving DecidableEq, Repr

namespace Name

def ofJson? : Json → Option Name
  | .text t => some (.text t)
  | .int i => some (.int i)
  | _ => none

def written : Name → String
  | .text t => t
  | .int i => (Numeral.ofInt i).text

end Name

/-- The members so far, the last one first, with one more; its name has to be new. -/
def addMember? (key value : Json) (members : List (Name × Json)) : Option (List (Name × Json)) := do
  let name ← Name.ofJson? key
  if members.any (·.1 = name) then none else return (name, value) :: members

/-- The mapping of the members, the last one first; of two names that are written alike the later counts. -/
def mapping (members : List (Name × Json)) : Json :=
  .object (members.foldr (fun (name, v) (l : List (String × Json)) => Dict.place name.written v l) [])

def empty? (p : Properties) (r : Reading) : Option (Json × Reading) :=
  if p.anchor.isSome || p.tag.isSome then (tagged? p.tag []).map fun v => (v, r) else none

mutual

/-- The value at the front. A list or a mapping outside of brackets may start only if `isBlock`, and a list whose
items stand no further in than the name before them only if `isFlat`. Every token takes less than four steps. -/
def node? : Nat → Bool → Bool → Reading → Option (Json × Reading)
  | 0, _, _, _ => none
  | fuel + 1, isBlock, isFlat, r =>
    match r.tokens with
    | .alias name :: _ => do return (← r.alias? name, r.next)
    | _ => do
      let (p, r) ← r.properties?
      let (v, r) ← content? fuel isBlock isFlat p r
      match p.anchor with
      | some n => return (v, { r with values := (n, v) :: r.values })
      | none => return (v, r)

def content? : Nat → Bool → Bool → Properties → Reading → Option (Json × Reading)
  | 0, _, _, _, _ => none
  | fuel + 1, isBlock, isFlat, p, r =>
    match r.tokens with
    | .item :: _ => if isFlat then flatItems? fuel [] r else empty? p r
    | .text t :: _ => some (.text t, r.next)
    | .plain cs :: _ => (tagged? p.tag cs).map fun v => (v, r.next)
    | .openList :: _ => items? fuel true [] r.next
    | .openMapping :: _ => members? fuel true [] r.next
    | .listStart :: _ => if isBlock then blockItems? fuel [] r.next else empty? p r
    | .mappingStart :: _ => if isBlock then blockMembers? fuel [] r.next else empty? p r
    | _ => empty? p r

def blockItems? : Nat → List Json → Reading → Option (Json × Reading)
  | 0, _, _ => none
  | fuel + 1, items, r =>
    match r.tokens with
    | .blockEnd :: _ => some (.array items.reverse, r.next)
    | .item :: _ =>
      if r.next.isAt [.item, .blockEnd] then blockItems? fuel (.null :: items) r.next
      else
        match node? fuel true false r.next with
        | some (v, r) => blockItems? fuel (v :: items) r
        | none => none
    | _ => none

def flatItems? : Nat → List Json → Reading → Option (Json × Reading)
  | 0, _, _ => none
  | fuel + 1, items, r =>
    match r.tokens with
    | .item :: _ =>
      if r.next.isAt [.item, .name, .value, .blockEnd] then flatItems? fuel (.null :: items) r.next
      else
        match node? fuel true false r.next with
        | some (v, r) => flatItems? fuel (v :: items) r
        | none => none
    | _ => some (.array items.reverse, r)

def blockMembers? : Nat → List (Name × Json) → Reading → Option (Json × Reading)
  | 0, _, _ => none
  | fuel + 1, members, r =>
    match r.tokens with
    | .blockEnd :: _ => some (mapping members, r.next)
    | .name :: _ =>
      if r.next.atBlockName then none
      else
        match node? fuel true true r.next with
        | some (key, r) =>
          match blockValue? fuel r with
          | some (v, r) =>
            match addMember? key v members with
            | some members => blockMembers? fuel members r
            | none => none
          | none => none
        | none => none
    | _ => none

def blockValue? : Nat → Reading → Option (Json × Reading)
  | 0, _ => none
  | fuel + 1, r =>
    match r.tokens with
    | .value :: _ => if r.next.atBlockName then some (.null, r.next) else node? fuel true true r.next
    | _ => some (.null, r)

/-- The items of a list in brackets, after those so far, the last one first. -/
def items? : Nat → Bool → List Json → Reading → Option (Json × Reading)
  | 0, _, _, _ => none
  | fuel + 1, isFirst, items, r =>
    match r.tokens with
    | .closeList :: _ => some (.array items.reverse, r.next)
    | t :: _ =>
      if !isFirst && t ≠ .comma then none
      else
        let r := if isFirst then r else r.next
        match r.tokens with
        | .closeList :: _ => some (.array items.reverse, r.next)
        | .name :: _ =>
          if r.next.isAt [.value, .comma, .closeList] then none
          else
            match node? fuel false false r.next with
            | some (key, r) =>
              match value? fuel .closeList r with
              | some (v, r) =>
                match addMember? key v [] with
                | some members => items? fuel false (mapping members :: items) r
                | none => none
              | none => none
            | none => none
        | _ =>
          match node? fuel false false r with
          | some (v, r) => items? fuel false (v :: items) r
          | none => none
    | [] => none

/-- The members of a mapping in brackets, after those so far, the last one first. -/
def members? : Nat → Bool → List (Name × Json) → Reading → Option (Json × Reading)
  | 0, _, _, _ => none
  | fuel + 1, isFirst, members, r =>
    match r.tokens with
    | .closeMapping :: _ => some (mapping members, r.next)
    | t :: _ =>
      if !isFirst && t ≠ .comma then none
      else
        let r := if isFirst then r else r.next
        match r.tokens with
        | .closeMapping :: _ => some (mapping members, r.next)
        | .value :: _ => none
        | t :: _ =>
          let isMarked := decide (t = .name)
          let r := if isMarked then r.next else r
          if isMarked && r.isAt [.value, .comma, .closeMapping] then none
          else
            match node? fuel false false r with
            | some (key, r) =>
              match if isMarked then value? fuel .closeMapping r else some (.null, r) with
              | some (v, r) =>
                match addMember? key v members with
                | some members => members? fuel false members r
                | none => none
              | none => none
            | none => none
        | [] => none
    | [] => none

def value? : Nat → Token → Reading → Option (Json × Reading)
  | 0, _, _ => none
  | fuel + 1, close, r =>
    match r.tokens with
    | .value :: _ => if r.next.isAt [.comma, close] then some (.null, r.next) else node? fuel false false r.next
    | _ => some (.null, r)

end

/-- The directives at the front; the version may be given once, and of the handles the last one counts. -/
def directives? (hasVersion : Bool) : List Token → Reading → Option Reading
  | .directive .version :: rest, r => if hasVersion then none else directives? true rest { r with handles := [] }
  | .directive (.handle name meaning) :: rest, r =>
    directives? hasVersion rest { r with handles := [(name, meaning)] }
  | tokens, r => some (r.withTokens tokens)

/-- The value of a document after its directives and a line of three hyphens; without one it is null. -/
def marked? (fuel : Nat) (r : Reading) : Option (Json × Reading) := do
  let r ← directives? false r.tokens r
  match r.tokens with
  | .documentStart :: _ =>
    match r.next.tokens with
    | [] => return (.null, r.next)
    | .directive _ :: _ => return (.null, r.next)
    | .documentStart :: _ => return (.null, r.next)
    | .documentEnd :: _ => return (.null, r.next)
    | _ => node? fuel true false r.next
  | _ => none

def document? (fuel : Nat) (r : Reading) : Option (Json × Reading) :=
  match r.tokens with
  | .directive _ :: _ => marked? fuel r
  | .documentStart :: _ => marked? fuel r
  | _ => node? fuel true false r

/-- The value of the only document, if there is one at all; several are none. -/
def only? (tokens : List Token) : Option (Option Json) := do
  let isEnd (t : Token) : Bool := t = .documentEnd
  match tokens.dropWhile isEnd with
  | [] => return none
  | tokens =>
    let (v, r) ← document? (4 * tokens.length + 4) { tokens }
    if (r.tokens.dropWhile isEnd).isEmpty then return some v else none

end Reading

end Placement.Yaml
