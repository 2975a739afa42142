import Maeglagi.Core.JsStrings

/-!
# The markup of an answer

`answer-markup.ts`: the text of an answer is cut into paragraphs and lists, and each of these
into text, code, bold text and citations.
-/

namespace Maeglagi.Answer

open Core

/-- `InlineNode` -/
inductive InlineNode where
  | text (text : JsString)
  | code (text : JsString)
  | bold (children : List InlineNode)
  | citation (index : Option Nat) (raw : JsString) (offset : Nat)

/-- `AnswerBlock` -/
inductive AnswerBlock where
  | paragraph (children : List InlineNode)
  | list (ordered : Bool) (start : Nat) (items : List (List InlineNode))

/-- `` ` `` -/
abbrev backtick : CodeUnit := 96

/-- `*` -/
abbrev asterisk : CodeUnit := 42

/-- `[` -/
abbrev openBracket : CodeUnit := 91

/-- `]` -/
abbrev closeBracket : CodeUnit := 93

/-- A match of `INLINE`, by the group that took part in it. -/
inductive Span where
  | code (text : JsString)
  | bold (text : JsString)
  | citation (digits : JsString)
  deriving DecidableEq

/-- What a match has matched. -/
def Span.raw : Span → JsString
  | .code text => backtick :: text ++ [backtick]
  | .bold text => asterisk :: asterisk :: text ++ [asterisk, asterisk]
  | .citation digits => openBracket :: digits ++ [closeBracket]

/-- The shortest text that `[^\n]*?\S` matches in front of two asterisks. -/
def boldText : JsString → Option JsString
  | [] => none
  | c :: rest =>
    if isJsSpace c = false ∧ [asterisk, asterisk] <+: rest then some [c]
    else if c = newline then none
    else (boldText rest).map (c :: ·)

/-- The match of `INLINE` at the start of a string. -/
def spanAt : JsString → Option Span
  | [] => none
  | c :: rest =>
    if c = backtick then
      let text := rest.takeWhile fun d => d ≠ backtick && d ≠ newline
      if text ≠ [] ∧ (rest.drop text.length).head? = some backtick then some (.code text) else none
    else if c = asterisk then
      match rest with
      | d :: e :: rest =>
        if d = asterisk ∧ isJsSpace e = false then (boldText (e :: rest)).map .bold else none
      | _ => none
    else if c = openBracket then
      let digits := rest.takeWhile isJsDigit
      if digits ≠ [] ∧ (rest.drop digits.length).head? = some closeBracket then
        some (.citation digits)
      else none
    else none

/-- A match of bold text that is not allowed; `exec` goes on behind its opening asterisks. -/
def Span.refused (allowBold : Bool) : Span → Bool
  | .bold _ => !allowBold
  | _ => false

/-- The matches that the loop of `parseInline` finds with their positions, after units that are
skipped. -/
def spans (allowBold : Bool) : Nat → Nat → JsString → List (Nat × Span)
  | _, _, [] => []
  | skipped + 1, index, _ :: rest => spans allowBold skipped (index + 1) rest
  | 0, index, c :: rest =>
    match spanAt (c :: rest) with
    | none => spans allowBold 0 (index + 1) rest
    | some span =>
      if span.refused allowBold then spans allowBold 1 (index + 1) rest
      else (index, span) :: spans allowBold (span.raw.length - 1) (index + 1) rest

/-- `pushText` -/
def pushText (nodes : List InlineNode) (text : JsString) : List InlineNode :=
  if text = [] then nodes
  else
    match nodes.getLast? with
    | some (.text last) => nodes.dropLast ++ [.text (last ++ text)]
    | _ => nodes ++ [.text text]

/-- The node of a match; what is bold is parsed by the given function. -/
def Span.node (parseBold : JsString → Nat → List InlineNode) (offset : Nat) : Span → InlineNode
  | .code text => .code text
  | .bold text => .bold (parseBold text (offset + 2))
  | .citation digits => .citation (numberOf digits) (Span.citation digits).raw offset

/-- The body of the loop, on the nodes and the cursor. -/
def pushSpan (parseBold : JsString → Nat → List InlineNode) (text : JsString) (base : Nat)
    (state : List InlineNode × Nat) (found : Nat × Span) : List InlineNode × Nat :=
  (pushText state.1 (slice text state.2 found.1) ++ [found.2.node parseBold (base + found.1)],
    found.1 + found.2.raw.length)

/-- The loop and what is left behind the last match. -/
def inlineNodes (parseBold : JsString → Nat → List InlineNode) (allowBold : Bool) (text : JsString)
    (base : Nat) : List InlineNode :=
  let state := (spans allowBold 0 0 text).foldl (pushSpan parseBold text base) ([], 0)
  pushText state.1 (text.drop state.2)

/-- `parseInline(text, base, false)`: what it finds bold it does not parse. -/
def parseUnbold (text : JsString) (base : Nat) : List InlineNode :=
  inlineNodes (fun _ _ => []) false text base

/-- `parseInline` -/
def parseInline (text : JsString) (base : Nat) (allowBold : Bool) : List InlineNode :=
  if allowBold then inlineNodes parseUnbold true text base else parseUnbold text base

/-- The first group of `BULLET` -/
def bulletContent (line : JsString) : Option JsString :=
  match line.dropWhile isJsSpace with
  | mark :: rest =>
    let content := rest.dropWhile isJsSpace
    if (mark = 45 ∨ mark = asterisk) ∧ content.length < rest.length ∧
        content.all (fun c => !isLineTerminator c) then some content
    else none
  | [] => none

/-- The groups of `ORDERED` -/
def orderedContent (line : JsString) : Option (JsString × JsString) :=
  let line := line.dropWhile isJsSpace
  let digits := line.takeWhile isJsDigit
  match line.drop digits.length with
  | mark :: rest =>
    let content := rest.dropWhile isJsSpace
    if 1 ≤ digits.length ∧ digits.length ≤ 3 ∧ (mark = 46 ∨ mark = 41) ∧
        content.length < rest.length ∧ content.all (fun c => !isLineTerminator c) then
      some (digits, content)
    else none
  | [] => none

/-- The state of the loop of `parseAnswer`. -/
structure Parsing where
  blocks : List AnswerBlock
  paragraph : Option (Nat × List JsString)
  offset : Nat

/-- `flush` -/
def Parsing.flush (state : Parsing) : Parsing :=
  match state.paragraph with
  | none => state
  | some (start, lines) => { state with
      blocks := state.blocks ++ [.paragraph (parseInline (joinLines lines) start true)]
      paragraph := none }

/-- An item goes to the last block, if that is a list of its kind, or starts a list. -/
def pushItem (blocks : List AnswerBlock) (ordered : Bool) (start : Nat)
    (item : List InlineNode) : List AnswerBlock :=
  match blocks.getLast? with
  | some (.list ordered' start' items) =>
    if ordered' = ordered then blocks.dropLast ++ [.list ordered start' (items ++ [item])]
    else blocks ++ [.list ordered start [item]]
  | _ => blocks ++ [.list ordered start [item]]

/-- The body of the loop for a line of a list. -/
def Parsing.item (state : Parsing) (line content : JsString) (ordered : Bool) (start : Nat) :
    Parsing :=
  let flushed := state.flush
  { flushed with
    blocks := pushItem flushed.blocks ordered start
      (parseInline content (state.offset + (line.length - content.length)) true)
    offset := state.offset + line.length + 1 }

/-- The body of the loop of `parseAnswer`. -/
def Parsing.line (state : Parsing) (line : JsString) : Parsing :=
  let next := state.offset + line.length + 1
  match bulletContent line with
  | some content => state.item line content false 1
  | none =>
    match orderedContent line with
    | some (digits, content) => state.item line content true ((numberOf digits).getD 0)
    | none =>
      if line.all isJsSpace then { state.flush with offset := next }
      else
        match state.paragraph with
        | some (start, lines) =>
          { state with paragraph := some (start, lines ++ [line]), offset := next }
        | none => { state with paragraph := some (state.offset, [line]), offset := next }

/-- `parseAnswer` -/
def parseAnswer (text : JsString) : List AnswerBlock :=
  ((lines text).foldl Parsing.line ⟨[], none, 0⟩).flush.blocks

end Maeglagi.Answer
