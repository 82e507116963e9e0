import MarkdownTemplates.Directive.Head
import MarkdownTemplates.Node

/-!
# Directives inside text

Text is cut into plain stretches and directives: a leaf `::name{…}` has a block of attributes, and a text directive
`:name[…]` has a label or a block. A directive does not follow a letter, a digit or a colon.
-/

namespace MarkdownTemplates

/-- A stretch of text. -/
inductive Segment where
  | plain (source : List Char)
  | directive (kind : NodeKind) (head : Head) (source : List Char)

namespace Segment

def source : Segment → List Char
  | plain s => s
  | directive _ _ s => s

def isDirective : Segment → Bool
  | directive .. => true
  | plain _ => false

/-- May a directive follow the character? -/
def allowsAfter (previous : Option Char) : Bool := previous.all fun c => c != ':' && !Text.isAlphanumeric c

/-- The kind of a directive with a number of colons and the source of its head. -/
def kindOf? (colons : Nat) (head : List Char) : Option NodeKind :=
  match colons with
  | 1 => if head.getLast? = some '}' ∨ head.getLast? = some ']' then some .textDirective else none
  | 2 => if head.getLast? = some '}' then some .leafDirective else none
  | _ => none

/-- The directive at the front of a text that starts with a colon, and the text behind it. -/
def directive? (text : List Char) : Option (NodeKind × Head × List Char) := do
  let colons := (text.takeWhile (· == ':')).length
  let behind := text.dropWhile (· == ':')
  let (head, rest) ← Head.parse? behind
  let kind ← kindOf? colons (behind.take (behind.length - rest.length))
  return (kind, head, rest)

theorem length_directive?_lt {text : List Char} {kind : NodeKind} {head : Head} {rest : List Char}
    (h : directive? text = some (kind, head, rest)) : rest.length < text.length := by
  simp only [directive?, Option.bind_eq_bind, Option.bind_eq_some_iff, Prod.exists, Option.pure_def,
    Option.some.injEq, Prod.mk.injEq] at h
  obtain ⟨head', rest', hp, kind', -, -, -, rfl⟩ := h
  have := Head.length_parse?_lt hp
  have := (List.dropWhile_suffix (l := text) (· == ':')).length_le
  omega

def addPlain (pending : List Char) (rest : List Segment) : List Segment :=
  if pending.isEmpty then rest else plain pending.reverse :: rest

/-- Cut a text into segments. `previous` is the character in front, and `pending` is the plain text read last, in
reverse. -/
def cut (previous : Option Char) (pending : List Char) : List Char → List Segment
  | [] => addPlain pending []
  | c :: r =>
    if c = ':' ∧ allowsAfter previous then
      match _h : directive? (c :: r) with
      | some (kind, head, rest) =>
        let source := (c :: r).take ((c :: r).length - rest.length)
        addPlain pending (directive kind head source :: cut source.getLast? [] rest)
      | none => cut (some c) (c :: pending) r
    else cut (some c) (c :: pending) r
  termination_by s => s.length
  decreasing_by
    · exact length_directive?_lt _h
    · simp
    · simp

def ofText (text : List Char) : List Segment := cut none [] text

/-- The node of a segment that starts at `start`. -/
def toNode (start : Option Point) : Segment → Node
  | plain s => { kind := .text, value := String.ofList s, span := start.map fun p => ⟨p, p.advance s⟩ }
  | directive kind head s =>
    { kind
      name := head.name
      label := head.label
      attributes := head.attributes
      raw := String.ofList s
      span := start.map fun p => ⟨p, p.advance s⟩ }

/-- The nodes of segments in a row, the first of which starts at `start`. A last plain segment ends at `stop`. -/
def toNodes (stop : Option Point) (start : Option Point) : List Segment → List Node
  | [] => []
  | [plain s] =>
    [{ kind := .text, value := String.ofList s, span := start.bind fun p => stop.map fun q => ⟨p, q⟩ }]
  | s :: rest => s.toNode start :: toNodes stop (start.map (·.advance s.source)) rest

end Segment

namespace Node

/-- Cut a node of text at its directives. -/
def splitText (n : Node) : List Node :=
  match n.value with
  | none => [n]
  | some value =>
    let segments := Segment.ofText value.toList
    if segments.any (·.isDirective) then
      Segment.toNodes (n.span.map (·.stop)) (n.span.map (·.start)) segments
    else [n]

/-- Is the value of such a node taken word for word? -/
def isVerbatim (n : Node) : Bool := n.kind = .code || n.kind = .inlineCode || n.kind = .html

theorem sizeOf_rest_lt (n : Node) (rest : List Node) : sizeOf rest < sizeOf (n :: rest) := by
  rw [List.cons.sizeOf_spec]
  omega

theorem sizeOf_children_lt (n : Node) (rest : List Node) : sizeOf n.children < sizeOf (n :: rest) := by
  obtain ⟨kind, name, label, attributes, value, checked, depth, children, span, raw⟩ := n
  rw [List.cons.sizeOf_spec, Node.mk.sizeOf_spec]
  dsimp only
  omega

/-- Cut all text of the nodes and below them. -/
def splitInline : List Node → List Node
  | [] => []
  | ⟨kind, name, label, attributes, value, checked, depth, children, span, raw⟩ :: rest =>
    let n : Node := ⟨kind, name, label, attributes, value, checked, depth, children, span, raw⟩
    if kind = .text then n.splitText ++ splitInline rest
    else if n.isVerbatim then n :: splitInline rest
    else
      ⟨kind, name, label, attributes, value, checked, depth, splitInline children, span, raw⟩ :: splitInline rest
  decreasing_by
    · exact sizeOf_rest_lt _ _
    · exact sizeOf_rest_lt _ _
    · exact sizeOf_children_lt ⟨kind, name, label, attributes, value, checked, depth, children, span, raw⟩ rest
    · exact sizeOf_rest_lt _ _

end Node

end MarkdownTemplates
