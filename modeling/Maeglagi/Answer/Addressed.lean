import Maeglagi.Answer.Markup

/-!
# Where the citations of an answer are

Each node of a parsed text stands where its print stands, so that the nodes print back to the
text and a citation is found at its offset.
-/

namespace Maeglagi.Answer

open Core

/-- A citation as it is rendered: its text, and its offset as the key. -/
structure Cited where
  raw : JsString
  offset : Nat
  deriving DecidableEq

mutual

/-- A node with its markers. -/
def InlineNode.print : InlineNode → JsString
  | .text text => text
  | .code text => backtick :: text ++ [backtick]
  | .bold children => asterisk :: asterisk :: printAll children ++ [asterisk, asterisk]
  | .citation _ raw _ => raw

/-- Nodes with their markers. -/
def printAll : List InlineNode → JsString
  | [] => []
  | node :: nodes => node.print ++ printAll nodes

end

mutual

/-- The citations of a node, as they are displayed. -/
def InlineNode.cited : InlineNode → List Cited
  | .text _ => []
  | .code _ => []
  | .bold children => citedAll children
  | .citation _ raw offset => [⟨raw, offset⟩]

/-- The citations of nodes, as they are displayed. -/
def citedAll : List InlineNode → List Cited
  | [] => []
  | node :: nodes => node.cited ++ citedAll nodes

end

mutual

/-- The citations of a node that stands at a position have the offsets at which they stand. -/
def InlineNode.Placed (position : Nat) : InlineNode → Prop
  | .text _ => True
  | .code _ => True
  | .bold children => PlacedAll (position + 2) children
  | .citation _ raw offset => offset = position ∧ raw ≠ []

/-- The same of nodes that stand one behind the other. -/
def PlacedAll (position : Nat) : List InlineNode → Prop
  | [] => True
  | node :: nodes => node.Placed position ∧ PlacedAll (position + node.print.length) nodes

end

theorem printAll_append (nodes more : List InlineNode) :
    printAll (nodes ++ more) = printAll nodes ++ printAll more := by
  induction nodes with
  | nil => rfl
  | cons node nodes ih => rw [List.cons_append, printAll, ih, printAll, List.append_assoc]

theorem placedAll_append {position : Nat} (nodes more : List InlineNode) :
    PlacedAll position (nodes ++ more) ↔
      PlacedAll position nodes ∧ PlacedAll (position + (printAll nodes).length) more := by
  induction nodes generalizing position with
  | nil => simp [PlacedAll, printAll]
  | cons node nodes ih =>
    rw [List.cons_append, PlacedAll, ih, PlacedAll, printAll, List.length_append, Nat.add_assoc,
      and_assoc]

/-- Citations that a text has at their offsets, in order, from a position to another one. -/
def Ordered (text : JsString) : Nat → List Cited → Nat → Prop
  | first, [], last => first ≤ last
  | first, c :: cs, last =>
    first ≤ c.offset ∧ c.raw ≠ [] ∧ c.raw <+: text.drop c.offset ∧
      Ordered text (c.offset + c.raw.length) cs last

theorem Ordered.mono {text : JsString} {first first' last last' : Nat} {cs : List Cited}
    (h : Ordered text first cs last) (hfirst : first' ≤ first) (hlast : last ≤ last') :
    Ordered text first' cs last' := by
  induction cs generalizing first first' with
  | nil =>
    have hle : first ≤ last := h
    show first' ≤ last'
    omega
  | cons c cs ih =>
    obtain ⟨hle, hne, hraw, hrest⟩ := h
    exact ⟨hfirst.trans hle, hne, hraw, ih hrest (Nat.le_refl _)⟩

theorem Ordered.append {text : JsString} {first middle last : Nat} {cs ds : List Cited}
    (h : Ordered text first cs middle) (hlater : Ordered text middle ds last) :
    Ordered text first (cs ++ ds) last := by
  induction cs generalizing first with
  | nil => exact hlater.mono h (Nat.le_refl _)
  | cons c cs ih =>
    obtain ⟨hle, hne, hraw, hrest⟩ := h
    exact ⟨hle, hne, hraw, ih hrest⟩

theorem Ordered.le_offset {text : JsString} {first last : Nat} {cs : List Cited}
    (h : Ordered text first cs last) : ∀ c ∈ cs, first ≤ c.offset := by
  induction cs generalizing first with
  | nil => simp
  | cons c cs ih =>
    obtain ⟨hle, -, -, hrest⟩ := h
    intro d hd
    rcases List.mem_cons.mp hd with rfl | hd
    · exact hle
    · have hlater := ih hrest d hd
      omega

/-- Such citations are found at their offsets. -/
theorem Ordered.slice_eq {text : JsString} {first last : Nat} {cs : List Cited}
    (h : Ordered text first cs last) :
    ∀ c ∈ cs, slice text c.offset (c.offset + c.raw.length) = c.raw := by
  induction cs generalizing first with
  | nil => simp
  | cons c cs ih =>
    obtain ⟨-, -, hraw, hrest⟩ := h
    intro d hd
    rcases List.mem_cons.mp hd with rfl | hd
    · rw [slice, Nat.add_sub_cancel_left]
      exact (List.prefix_iff_eq_take.mp hraw).symm
    · exact ih hrest d hd

/-- Their offsets increase. -/
theorem Ordered.pairwise {text : JsString} {first last : Nat} {cs : List Cited}
    (h : Ordered text first cs last) : (cs.map Cited.offset).Pairwise (· < ·) := by
  induction cs generalizing first with
  | nil => exact .nil
  | cons c cs ih =>
    obtain ⟨-, hne, -, hrest⟩ := h
    have hpos := List.length_pos_iff.mpr hne
    refine .cons (fun offset hoffset => ?_) (ih hrest)
    obtain ⟨d, hd, rfl⟩ := List.mem_map.mp hoffset
    have hlater := hrest.le_offset d hd
    omega

theorem prefix_drop_append {text s t : JsString} {n : Nat} :
    s ++ t <+: text.drop n ↔ s <+: text.drop n ∧ t <+: text.drop (n + s.length) := by
  constructor
  · rintro ⟨rest, hrest⟩
    rw [← List.drop_drop, ← hrest, List.append_assoc]
    exact ⟨List.prefix_append _ _, by rw [List.drop_left]; exact List.prefix_append _ _⟩
  · rintro ⟨⟨rest, hrest⟩, ht⟩
    rw [← List.drop_drop, ← hrest, List.drop_left] at ht
    rw [← hrest]
    exact (List.prefix_append_right_inj s).mpr ht

mutual

/-- The citations of a node that stands where its text has its print. -/
theorem ordered_cited {text : JsString} (node : InlineNode) {position : Nat}
    (h : node.Placed position) (hprint : node.print <+: text.drop position) :
    Ordered text position node.cited (position + node.print.length) := by
  match node with
  | .text _ => exact Nat.le_add_right _ _
  | .code _ => exact Nat.le_add_right _ _
  | .bold children =>
    have hinner : printAll children <+: text.drop (position + 2) :=
      (prefix_drop_append.mp (prefix_drop_append (s := [asterisk, asterisk]).mp hprint).2).1
    refine (ordered_citedAll children h hinner).mono (by omega) ?_
    simp only [InlineNode.print, List.length_cons, List.length_append]
    omega
  | .citation _ raw offset =>
    obtain ⟨rfl, hne⟩ := h
    exact ⟨Nat.le_refl _, hne, hprint, Nat.le_refl _⟩

/-- The citations of nodes that stand where their text has their print. -/
theorem ordered_citedAll {text : JsString} (nodes : List InlineNode) {position : Nat}
    (h : PlacedAll position nodes) (hprint : printAll nodes <+: text.drop position) :
    Ordered text position (citedAll nodes) (position + (printAll nodes).length) := by
  match nodes with
  | [] => exact Nat.le_add_right _ _
  | node :: nodes =>
    obtain ⟨hnode, hnodes⟩ := prefix_drop_append.mp hprint
    have hlast := ordered_citedAll nodes h.2 hnodes
    rw [Nat.add_assoc, ← List.length_append] at hlast
    exact (ordered_cited node h.1 hnode).append hlast

end

theorem print_pushText (nodes : List InlineNode) (text : JsString) :
    printAll (pushText nodes text) = printAll nodes ++ text := by
  unfold pushText
  split_ifs with hempty
  · rw [hempty, List.append_nil]
  · split
    · next last hlast =>
      have hsplit := List.dropLast_append_getLast? _ (Option.mem_def.mpr hlast)
      conv_rhs => rw [← hsplit]
      simp [printAll_append, printAll, InlineNode.print]
    · simp [printAll_append, printAll, InlineNode.print]

theorem placed_pushText {position : Nat} {nodes : List InlineNode} (text : JsString)
    (h : PlacedAll position nodes) : PlacedAll position (pushText nodes text) := by
  unfold pushText
  split_ifs
  · exact h
  · split
    · next last hlast =>
      rw [← List.dropLast_append_getLast? _ (Option.mem_def.mpr hlast), placedAll_append] at h
      exact (placedAll_append _ _).mpr ⟨h.1, trivial, trivial⟩
    · exact (placedAll_append _ _).mpr ⟨h, trivial, trivial⟩

theorem boldText_starts {s text : JsString} (h : boldText s = some text) :
    text ++ [asterisk, asterisk] <+: s := by
  induction s generalizing text with
  | nil => cases h
  | cons c rest ih =>
    unfold boldText at h
    split_ifs at h with hend
    · obtain rfl := Option.some.inj h
      exact (List.prefix_cons_inj c).mpr hend.2
    · obtain ⟨inner, hinner, rfl⟩ := Option.map_eq_some_iff.mp h
      exact (List.prefix_cons_inj c).mpr (ih hinner)

/-- The start of a string and the unit behind it are the start of the string. -/
theorem prefix_concat {s t : JsString} {c : CodeUnit} (ht : t <+: s)
    (h : (s.drop t.length).head? = some c) : t ++ [c] <+: s := by
  obtain ⟨more, rfl⟩ := ht
  rw [List.drop_left] at h
  obtain ⟨rest, rfl⟩ := List.head?_eq_some_iff.mp h
  exact ⟨rest, by simp⟩

/-- What a match has matched is the start of the string. -/
theorem raw_prefix_of_spanAt {s : JsString} {span : Span} (h : spanAt s = some span) :
    span.raw <+: s := by
  unfold spanAt at h
  split at h
  · cases h
  · next c rest =>
    dsimp only at h
    split_ifs at h with hcode htext hbold hcited hdigits
    · obtain rfl := Option.some.inj h
      rw [hcode]
      exact (List.prefix_cons_inj backtick).mpr (prefix_concat (List.takeWhile_prefix _) htext.2)
    · split at h
      · next d e rest =>
        split_ifs at h with hopen
        obtain ⟨text, htext, rfl⟩ := Option.map_eq_some_iff.mp h
        rw [hbold, hopen.1]
        exact (List.prefix_cons_inj asterisk).mpr
          ((List.prefix_cons_inj asterisk).mpr (boldText_starts htext))
      · cases h
    · obtain rfl := Option.some.inj h
      rw [hcited]
      exact (List.prefix_cons_inj openBracket).mpr (prefix_concat (List.takeWhile_prefix _) hdigits.2)

theorem length_raw_pos (span : Span) : 0 < span.raw.length := by
  cases span with
  | code text => exact Nat.succ_pos _
  | bold text => exact Nat.succ_pos _
  | citation digits => exact Nat.succ_pos _

/-- Matches of a text in order, none before a position. -/
def Spanned (text : JsString) : Nat → List (Nat × Span) → Prop
  | _, [] => True
  | first, found :: more =>
    first ≤ found.1 ∧ found.2.raw <+: text.drop found.1 ∧
      Spanned text (found.1 + found.2.raw.length) more

theorem Spanned.mono {text : JsString} {first first' : Nat} {found : List (Nat × Span)}
    (h : Spanned text first found) (hle : first' ≤ first) : Spanned text first' found := by
  cases found with
  | nil => trivial
  | cons span more => exact ⟨hle.trans h.1, h.2⟩

/-- The matches that the loop finds are in the text and do not overlap. -/
theorem spanned_spans {allowBold : Bool} {text rest : JsString} {skipped index : Nat}
    (h : text.drop index = rest) :
    Spanned text (index + skipped) (spans allowBold skipped index rest) := by
  induction rest generalizing skipped index with
  | nil => simp [spans, Spanned]
  | cons c rest ih =>
    have hrest : text.drop (index + 1) = rest := by rw [← List.drop_drop, h, List.drop_one, List.tail_cons]
    cases skipped with
    | succ skipped =>
      have hlater := @ih skipped _ hrest
      rwa [Nat.add_right_comm, Nat.add_assoc] at hlater
    | zero =>
      unfold spans
      split
      · exact (@ih 0 _ hrest).mono (by omega)
      · next span hspan =>
        split_ifs
        · exact (@ih 1 _ hrest).mono (by omega)
        · have hpos := length_raw_pos span
          refine ⟨Nat.le_refl _, h ▸ raw_prefix_of_spanAt hspan, ?_⟩
          refine (@ih (span.raw.length - 1) _ hrest).mono ?_
          dsimp only
          omega

theorem not_refused_of_mem_spans {allowBold : Bool} {rest : JsString} {skipped index : Nat} :
    ∀ found ∈ spans allowBold skipped index rest, found.2.refused allowBold = false := by
  induction rest generalizing skipped index with
  | nil => simp [spans]
  | cons c rest ih =>
    cases skipped with
    | succ skipped => exact ih
    | zero =>
      unfold spans
      split
      · exact ih
      · split_ifs with hrefused
        · exact ih
        · exact List.forall_mem_cons.mpr ⟨by simpa using hrefused, ih⟩

/-- A parser whose nodes print back to the text and stand where their prints do. -/
def Faithful (parse : JsString → Nat → List InlineNode) : Prop :=
  ∀ text base, printAll (parse text base) = text ∧ PlacedAll base (parse text base)

variable {parseBold : JsString → Nat → List InlineNode} {text : JsString} {base : Nat}

/-- The node of a match prints what was matched and stands where it was found. -/
theorem print_node {allowBold : Bool} (hbold : allowBold = true → Faithful parseBold) {span : Span}
    (hspan : span.refused allowBold = false) (offset : Nat) :
    (span.node parseBold offset).print = span.raw ∧
      (span.node parseBold offset).Placed offset := by
  cases span with
  | code text => exact ⟨rfl, trivial⟩
  | citation digits => exact ⟨rfl, rfl, List.cons_ne_nil _ _⟩
  | bold text =>
    have hallowed : allowBold = true := by simpa [Span.refused] using hspan
    obtain ⟨hprint, hplaced⟩ := hbold hallowed text (offset + 2)
    exact ⟨by rw [Span.node, InlineNode.print, hprint, Span.raw], hplaced⟩

/-- The loop prints back what is in front of the cursor. -/
theorem print_foldl_pushSpan {allowBold : Bool} (hbold : allowBold = true → Faithful parseBold)
    {found : List (Nat × Span)} {nodes : List InlineNode} {cursor : Nat}
    (hspans : Spanned text cursor found)
    (hallowed : ∀ f ∈ found, f.2.refused allowBold = false) (hcursor : cursor ≤ text.length)
    (hprint : printAll nodes = text.take cursor) (hplaced : PlacedAll base nodes) :
    let state := found.foldl (pushSpan parseBold text base) (nodes, cursor)
    printAll state.1 = text.take state.2 ∧ PlacedAll base state.1 := by
  induction found generalizing nodes cursor with
  | nil => exact ⟨hprint, hplaced⟩
  | cons span more ih =>
    obtain ⟨hle, hraw, hmore⟩ := hspans
    obtain ⟨hspan, hallowed⟩ := List.forall_mem_cons.mp hallowed
    obtain ⟨hnode, hat⟩ := print_node hbold hspan (base + span.1)
    have hlen : span.1 + span.2.raw.length ≤ text.length := by
      have hpos := length_raw_pos span.2
      have hfits := hraw.length_le
      rw [List.length_drop] at hfits
      omega
    have htext : printAll (pushText nodes (slice text cursor span.1)) = text.take span.1 := by
      rw [print_pushText, hprint, slice, ← List.take_add, Nat.add_sub_cancel' hle]
    refine ih hmore hallowed hlen ?_ ?_
    · rw [printAll_append, htext, printAll, printAll, List.append_nil, hnode, List.take_add,
        ← List.prefix_iff_eq_take.mp hraw]
    · refine (placedAll_append _ _).mpr ⟨placed_pushText _ hplaced, ?_, trivial⟩
      rw [htext, List.length_take, Nat.min_eq_left (by omega)]
      exact hat

theorem faithful_inlineNodes {allowBold : Bool} (hbold : allowBold = true → Faithful parseBold) :
    Faithful (inlineNodes parseBold allowBold) := by
  intro text base
  have hspans : Spanned text 0 (spans allowBold 0 0 text) :=
    @spanned_spans allowBold text text 0 0 rfl
  obtain ⟨hprint, hplaced⟩ := print_foldl_pushSpan hbold hspans
    not_refused_of_mem_spans (Nat.zero_le _) (show printAll [] = text.take 0 from rfl)
    (show PlacedAll base [] from trivial)
  refine ⟨?_, placed_pushText _ hplaced⟩
  rw [inlineNodes, print_pushText, hprint, List.take_append_drop]

/-- `parseInline` prints back what it parsed, and its nodes stand where their prints do. -/
theorem faithful_parseInline (allowBold : Bool) :
    Faithful fun text base => parseInline text base allowBold := by
  have hunbold : Faithful parseUnbold := faithful_inlineNodes fun h => by cases h
  intro text base
  unfold parseInline
  split_ifs
  · exact faithful_inlineNodes (fun _ => hunbold) text base
  · exact hunbold text base

/-- The citations of a block, as they are displayed. -/
def AnswerBlock.cited : AnswerBlock → List Cited
  | .paragraph children => citedAll children
  | .list _ _ items => items.flatMap citedAll

/-- The citations of blocks, as they are displayed. -/
def citedBlocks (blocks : List AnswerBlock) : List Cited := blocks.flatMap AnswerBlock.cited

theorem citedBlocks_pushItem (blocks : List AnswerBlock) (ordered : Bool) (start : Nat)
    (item : List InlineNode) :
    citedBlocks (pushItem blocks ordered start item) = citedBlocks blocks ++ citedAll item := by
  unfold pushItem
  split
  · next kind first items hlast =>
    split_ifs
    · have hsplit := List.dropLast_append_getLast? _ (Option.mem_def.mpr hlast)
      conv_rhs => rw [← hsplit]
      simp [citedBlocks, AnswerBlock.cited]
    · simp [citedBlocks, AnswerBlock.cited]
  · simp [citedBlocks, AnswerBlock.cited]

/-- What is parsed is placed before the line that comes next, and the open paragraph is the text
up to that line. -/
def Parsing.Sound (text : JsString) (state : Parsing) : Prop :=
  ∃ last ≤ state.offset, Ordered text 0 (citedBlocks state.blocks) last ∧
    ∀ start lines, state.paragraph = some (start, lines) → last ≤ start ∧ lines ≠ [] ∧
      joinLines lines <+: text.drop start ∧ start + (joinLines lines).length + 1 = state.offset

theorem Parsing.Sound.ordered_flush {state : Parsing} (h : state.Sound text) :
    Ordered text 0 (citedBlocks state.flush.blocks) state.offset ∧
      state.flush.paragraph = none ∧ state.flush.offset = state.offset := by
  obtain ⟨last, hlast, hblocks, hparagraph⟩ := h
  unfold flush
  split
  · next hnone => exact ⟨hblocks.mono (Nat.le_refl _) hlast, hnone, rfl⟩
  · next start lines hsome =>
    obtain ⟨hstart, -, hshown, hend⟩ := hparagraph start lines hsome
    obtain ⟨hprint, hplaced⟩ := faithful_parseInline true (joinLines lines) start
    refine ⟨?_, rfl, rfl⟩
    have hcited := ordered_citedAll _ hplaced (hprint.symm ▸ hshown)
    rw [hprint] at hcited
    have hboth := (hblocks.mono (Nat.le_refl _) hstart).append hcited
    simpa [citedBlocks, AnswerBlock.cited] using hboth.mono (Nat.le_refl _) (by omega)

theorem Parsing.Sound.item {state : Parsing} (h : state.Sound text) {line content : JsString}
    (hline : line <+: text.drop state.offset) (hcontent : content <:+ line) (ordered : Bool)
    (start : Nat) : (state.item line content ordered start).Sound text := by
  obtain ⟨hblocks, hparagraph, -⟩ := h.ordered_flush
  obtain ⟨before, rfl⟩ := hcontent
  have hat : (before ++ content).length - content.length = before.length := by simp
  obtain ⟨hprint, hplaced⟩ :=
    faithful_parseInline true content (state.offset + before.length)
  have hcited := ordered_citedAll _ hplaced (hprint.symm ▸ (prefix_drop_append.mp hline).2)
  rw [hprint] at hcited
  refine ⟨state.offset + before.length + content.length, ?_, ?_, fun start lines hopen => ?_⟩
  · simp only [Parsing.item, List.length_append]
    omega
  · simp only [Parsing.item, citedBlocks_pushItem, hat]
    exact hblocks.append (hcited.mono (Nat.le_add_right _ _) (Nat.le_refl _))
  · simp only [Parsing.item, hparagraph] at hopen
    cases hopen

theorem bulletContent_suffix {line content : JsString} (h : bulletContent line = some content) :
    content <:+ line := by
  unfold bulletContent at h
  split at h
  · next mark rest hrest =>
    dsimp only at h
    split_ifs at h
    obtain rfl := Option.some.inj h
    have hinner : rest.dropWhile isJsSpace <:+ mark :: rest :=
      (List.dropWhile_suffix _).trans (List.suffix_cons _ _)
    exact hinner.trans (hrest ▸ List.dropWhile_suffix _)
  · cases h

theorem orderedContent_suffix {line digits content : JsString}
    (h : orderedContent line = some (digits, content)) : content <:+ line := by
  unfold orderedContent at h
  dsimp only at h
  split at h
  · next mark rest hrest =>
    split_ifs at h
    cases h
    have hinner : rest.dropWhile isJsSpace <:+ mark :: rest :=
      (List.dropWhile_suffix _).trans (List.suffix_cons _ _)
    exact (hinner.trans (hrest ▸ List.drop_suffix _ _)).trans (List.dropWhile_suffix _)
  · cases h

/-- A line that stands behind a newline is parsed. -/
theorem Parsing.Sound.line {state : Parsing} (h : state.Sound text) {line : JsString}
    (hline : line <+: text.drop state.offset)
    (hnewline : 0 < state.offset → text[state.offset - 1]? = some newline) :
    (state.line line).Sound text ∧ (state.line line).offset = state.offset + line.length + 1 := by
  unfold Parsing.line
  dsimp only
  split
  · next content hcontent =>
    exact ⟨h.item hline (bulletContent_suffix hcontent) _ _, rfl⟩
  · split
    · next digits content hcontent =>
      exact ⟨h.item hline (orderedContent_suffix hcontent) _ _, rfl⟩
    · split_ifs
      · obtain ⟨hblocks, hparagraph, -⟩ := h.ordered_flush
        refine ⟨⟨state.offset, ?_, hblocks, fun start lines hopen => ?_⟩, rfl⟩
        · dsimp only
          omega
        · cases hparagraph.symm.trans hopen
      · obtain ⟨last, hlast, hblocks, hparagraph⟩ := h
        split
        · next start lines hopen =>
          obtain ⟨hstart, hne, hshown, hend⟩ := hparagraph start lines hopen
          refine ⟨⟨last, ?_, hblocks, ?_⟩, rfl⟩
          · dsimp only
            omega
          · rintro start' lines' heq
            cases heq
            rw [joinLines_concat hne]
            have hbefore : newline :: line <+: text.drop (start + (joinLines lines).length) := by
              have hunit := hnewline (by omega)
              rw [← hend, Nat.add_sub_cancel] at hunit
              obtain ⟨hlt, hunit⟩ := List.getElem?_eq_some_iff.mp hunit
              rw [List.drop_eq_getElem_cons hlt, hunit, hend]
              exact (List.prefix_cons_inj newline).mpr hline
            refine ⟨hstart, by simp, prefix_drop_append.mpr ⟨hshown, hbefore⟩, ?_⟩
            simp only [List.length_append, List.length_cons]
            omega
        · refine ⟨⟨last, ?_, hblocks, ?_⟩, rfl⟩
          · dsimp only
            omega
          · rintro start' lines' heq
            cases heq
            exact ⟨hlast, by simp, hline, rfl⟩

/-- The lines that are left are parsed. -/
theorem Parsing.Sound.foldl_line {state : Parsing} {remaining : List JsString}
    (h : state.Sound text) (hrest : remaining ≠ [] → text.drop state.offset = joinLines remaining)
    (hnewline : remaining ≠ [] → 0 < state.offset → text[state.offset - 1]? = some newline) :
    (remaining.foldl Parsing.line state).Sound text := by
  induction remaining generalizing state with
  | nil => exact h
  | cons line more ih =>
    have hdrop := hrest (by simp)
    have hline : line <+: text.drop state.offset := by
      rw [hdrop]
      cases more with
      | nil => exact List.prefix_refl _
      | cons next more => exact List.prefix_append _ _
    obtain ⟨hsound, hoffset⟩ := h.line hline (hnewline (by simp))
    have hlater : more ≠ [] →
        text.drop (state.offset + line.length) = newline :: joinLines more := by
      intro hmore
      rw [← List.drop_drop, hdrop, joinLines_cons line hmore, List.drop_left]
    refine ih hsound (fun hmore => ?_) fun hmore _ => ?_
    · rw [hoffset, ← List.drop_drop, hlater hmore, List.drop_one, List.tail_cons]
    · rw [hoffset, Nat.add_sub_cancel, ← List.head?_drop, hlater hmore, List.head?]

/-- The citations of an answer are found at their offsets, which increase as they are displayed,
and every text that is parsed prints back. -/
theorem parseAnswer_addressed (text : JsString) :
    (∀ c ∈ citedBlocks (parseAnswer text),
      slice text c.offset (c.offset + c.raw.length) = c.raw) ∧
    ((citedBlocks (parseAnswer text)).map Cited.offset).Pairwise (· < ·) ∧
    ∀ line base allowBold, printAll (parseInline line base allowBold) = line := by
  have hstart : (⟨[], none, 0⟩ : Parsing).Sound text :=
    ⟨0, Nat.le_refl _, Nat.le_refl 0, fun start lines h => by cases h⟩
  have hsound := hstart.foldl_line (fun _ => (joinLines_lines text).symm)
    (fun _ h => absurd h (Nat.lt_irrefl 0))
  obtain ⟨hordered, -, -⟩ := hsound.ordered_flush
  exact ⟨hordered.slice_eq, hordered.pairwise,
    fun line base allowBold => (faithful_parseInline allowBold line base).1⟩

end Maeglagi.Answer
