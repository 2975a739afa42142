import Maeglagi.Core.Framing
import Maeglagi.Events.Json

/-!
# Server-sent events

The texts that the backend streams, and `apiStream`, which reads them in whatever chunks they
arrive: it yields the JSON of the frames before the terminal marker.
-/

namespace Maeglagi.Events

open Core

/-! ## The streams of the backend -/

/-- What the backend writes to an event stream. -/
inductive Frame where
  | data (event : List (Text × Json))
  | done
  | job (response : List (Text × Json))
  | heartbeat

def dataPrefix : Text := "data:".toList

def doneMarker : Text := "[DONE]".toList

/-- The text of a frame, without the empty line that ends it. -/
def Frame.body : Frame → Text
  | .data event => dataPrefix ++ ' ' :: objectText .dumps event
  | .done => dataPrefix ++ ' ' :: doneMarker
  | .job response =>
    "event: job".toList ++ '\n' :: (dataPrefix ++ ' ' :: objectText .modelDumpJson response)
  | .heartbeat => ": heartbeat".toList

/-- The text of a frame. -/
def Frame.text (frame : Frame) : Text := frame.body ++ "\n\n".toList

/-- The JSON that a frame carries. -/
def Frame.payload : Frame → Option Text
  | .data event => some (objectText .dumps event)
  | .job response => some (objectText .modelDumpJson response)
  | .done | .heartbeat => none

/-- The frame is the terminal one. -/
def Frame.isDone : Frame → Bool
  | .done => true
  | _ => false

/-- `_sse`: the events, the report of a failure in between, and the terminal marker. -/
def sse (events : List (List (Text × Json))) (failure : Option (List (Text × Json))) :
    List Frame :=
  events.map Frame.data ++ failure.toList.map Frame.data ++ [.done]

/-! ## The client -/

/-- The white space of `trimStart`. -/
def isJsSpace (c : Char) : Bool :=
  let n := c.toNat
  (9 ≤ n && n ≤ 13) || n = 32 || n = 160 || n = 5760 || (8192 ≤ n && n ≤ 8202) || n = 8232 ||
    n = 8233 || n = 8239 || n = 8287 || n = 12288 || n = 65279

/-- `replace(/\r\n/g, "\n")` -/
def replaceCrlf : Text → Text
  | [] => []
  | [c] => [c]
  | c :: d :: rest =>
    if c = '\r' ∧ d = '\n' then '\n' :: replaceCrlf rest else c :: replaceCrlf (d :: rest)

/-- The data of a frame: its data lines, joined. -/
def frameData (frame : Text) : Text :=
  ['\n'].intercalate (((frame.splitOn '\n').filter dataPrefix.isPrefixOf).map fun line =>
    (line.drop dataPrefix.length).dropWhile isJsSpace)

/-- The payloads of frames up to the terminal marker, and whether it was found. -/
def readFrames : List Text → List Text × Bool
  | [] => ([], false)
  | frame :: frames =>
    let data := frameData frame
    if data = doneMarker then ([], true)
    else if data = [] then readFrames frames
    else (data :: (readFrames frames).1, (readFrames frames).2)

/-- The result of `parseSseFrames`. -/
structure Parsed where
  payloads : List Text
  remainder : Text
  done : Bool

/-- `parseSseFrames` -/
def parseSseFrames (buffer : Text) : Parsed :=
  let split := splitFrames '\n' (replaceCrlf buffer)
  ⟨(readFrames split.1).1, split.2, (readFrames split.1).2⟩

variable {β ε : Type}

/-- What a generator yields, and what it throws at the end. -/
abbrev Yields (β ε : Type) : Type := List β × Option ε

/-- A generator that goes on with another one unless it has thrown. -/
def Yields.andThen (first rest : Yields β ε) : Yields β ε :=
  match first.2 with
  | none => (first.1 ++ rest.1, rest.2)
  | some e => (first.1, some e)

/-- `for (const payload of payloads) yield JSON.parse(payload)` -/
def yieldParsed (jsonParse : Text → Except ε β) : List Text → Yields β ε
  | [] => ([], none)
  | payload :: payloads =>
    match jsonParse payload with
    | .ok v => (v :: (yieldParsed jsonParse payloads).1, (yieldParsed jsonParse payloads).2)
    | .error e => ([], some e)

/-- `apiStream`, from the chunks that `reader.read()` returns. -/
def apiStream (jsonParse : Text → Except ε β) (buffer : Text) : List Text → Yields β ε
  | [] => yieldParsed jsonParse (parseSseFrames (buffer ++ "\n\n".toList)).payloads
  | value :: chunks =>
    let parsed := parseSseFrames (buffer ++ value)
    (yieldParsed jsonParse parsed.payloads).andThen
      (if parsed.done then ([], none) else apiStream jsonParse parsed.remainder chunks)

/-! ## Reading in chunks -/

/-- Text with no carriage return stays as it is. -/
theorem replaceCrlf_eq_self {t : Text} (h : '\r' ∉ t) : replaceCrlf t = t := by
  induction t using replaceCrlf.induct with
  | case1 => rfl
  | case2 c => rfl
  | case3 c d rest hcrlf ih => exact absurd (hcrlf.1 ▸ List.mem_cons_self ..) h
  | case4 c d rest hcrlf ih =>
    rw [replaceCrlf, if_neg hcrlf, ih fun hmem => h (List.mem_cons_of_mem _ hmem)]

/-- Frames are read one after the other, up to the terminal marker. -/
theorem readFrames_append (frames rest : List Text) :
    readFrames (frames ++ rest) =
      if (readFrames frames).2 then readFrames frames
      else ((readFrames frames).1 ++ (readFrames rest).1, (readFrames rest).2) := by
  induction frames with
  | nil => rfl
  | cons frame frames ih =>
    simp only [List.cons_append, readFrames, ih]
    split_ifs <;> simp_all

theorem yieldParsed_append (jsonParse : Text → Except ε β) (payloads rest : List Text) :
    yieldParsed jsonParse (payloads ++ rest) =
      (yieldParsed jsonParse payloads).andThen (yieldParsed jsonParse rest) := by
  induction payloads with
  | nil => rfl
  | cons payload payloads ih =>
    simp only [List.cons_append, yieldParsed]
    cases jsonParse payload with
    | error e => rfl
    | ok v =>
      simp only [ih, Yields.andThen]
      cases (yieldParsed jsonParse payloads).2 <;> rfl

theorem andThen_nil (first : Yields β ε) : first.andThen ([], none) = first := by
  obtain ⟨out, thrown⟩ := first
  cases thrown with
  | none => simp [Yields.andThen]
  | some e => rfl

/-- However a text is cut into chunks, the payloads of its frames are yielded, those of an
unfinished last frame too. -/
theorem apiStream_eq (jsonParse : Text → Except ε β) {buffer : Text} {chunks : List Text}
    (hbuffer : '\r' ∉ buffer) (hchunks : '\r' ∉ chunks.flatten) :
    apiStream jsonParse buffer chunks = yieldParsed jsonParse
      (readFrames (splitFrames '\n' (buffer ++ (chunks.flatten ++ "\n\n".toList))).1).1 := by
  induction chunks generalizing buffer with
  | nil =>
    have hend : '\r' ∉ buffer ++ "\n\n".toList := by
      rw [List.mem_append, not_or]
      exact ⟨hbuffer, by decide⟩
    rw [apiStream, parseSseFrames, replaceCrlf_eq_self hend]
    rfl
  | cons value chunks ih =>
    rw [List.flatten_cons, List.mem_append, not_or] at hchunks
    have hpart : '\r' ∉ buffer ++ value := by
      rw [List.mem_append, not_or]
      exact ⟨hbuffer, hchunks.1⟩
    have htail : '\r' ∉ (splitFrames '\n' (buffer ++ value)).2 := fun h => hpart (mem_of_mem_tail h)
    have hrest := ih htail hchunks.2
    have hsplit := splitFrames_append '\n' (buffer ++ value) (chunks.flatten ++ "\n\n".toList)
    rw [apiStream, parseSseFrames, replaceCrlf_eq_self hpart]
    dsimp only
    rw [hrest, List.flatten_cons, List.append_assoc value, ← List.append_assoc buffer, hsplit]
    dsimp only
    rw [readFrames_append]
    cases (readFrames (splitFrames '\n' (buffer ++ value)).1).2 with
    | true => rw [if_pos rfl, if_pos rfl, andThen_nil]
    | false =>
      rw [if_neg Bool.false_ne_true, if_neg Bool.false_ne_true]
      exact (yieldParsed_append jsonParse _ _).symm

/-! ## Reading what the backend wrote -/

theorem notMem_of_printable {c : Char} {t : Text} (ht : Printable t) (hc : c.toNat < 32) :
    c ∉ t := fun h => absurd (ht c h) (Nat.not_le.mpr hc)

/-- The data of a data line is what stands after the blank. -/
theorem data_of_line {payload : Text} (h : ∀ c ∈ payload.head?, isJsSpace c = false) :
    ((dataPrefix ++ ' ' :: payload).drop dataPrefix.length).dropWhile isJsSpace = payload := by
  rw [List.drop_left, List.dropWhile_cons_of_pos (by decide)]
  cases payload with
  | nil => rfl
  | cons c payload => exact List.dropWhile_cons_of_neg (by simp [h c rfl])

/-- The text of an object starts with a brace. -/
theorem objectText_eq_cons (w : JsonWriter) (fields : List (Text × Json)) :
    objectText w fields = openBrace :: (fieldsText w fields ++ [closeBrace]) := by
  rw [objectText, Json.text, List.cons_append]

theorem data_of_objectLine (w : JsonWriter) (fields : List (Text × Json)) :
    ((dataPrefix ++ ' ' :: objectText w fields).drop dataPrefix.length).dropWhile isJsSpace =
      objectText w fields := by
  refine data_of_line fun c hc => ?_
  rw [objectText_eq_cons, List.head?_cons, Option.mem_some_iff] at hc
  subst hc
  decide

theorem printable_objectLine (w : JsonWriter) (fields : List (Text × Json)) :
    Printable (dataPrefix ++ ' ' :: objectText w fields) :=
  printable_append.mpr ⟨by decide, printable_cons.mpr ⟨by decide, printable_text w _⟩⟩

/-- A data line is one line and data. -/
theorem frameData_line {line : Text} (hline : Printable line)
    (hdata : dataPrefix.isPrefixOf line = true) :
    frameData line = (line.drop dataPrefix.length).dropWhile isJsSpace := by
  rw [frameData, List.splitOn_eq_singleton (notMem_of_printable hline (by decide)),
    List.filter_cons_of_pos hdata]
  simp

/-- The data that the client reads in the frame. -/
theorem frameData_body (frame : Frame) : frameData frame.body =
    if frame.isDone then doneMarker else frame.payload.getD [] := by
  cases frame with
  | data event =>
    exact (frameData_line (printable_objectLine _ _) (by simp [dataPrefix])).trans
      (data_of_objectLine _ _)
  | done => exact frameData_line (by decide) (by decide)
  | job response =>
    have hevent : '\n' ∉ "event: job".toList := by decide
    have hline : '\n' ∉ dataPrefix ++ ' ' :: objectText .modelDumpJson response :=
      notMem_of_printable (printable_objectLine _ _) (by decide)
    show frameData ("event: job".toList ++ '\n' :: _) = _
    rw [frameData, List.splitOn_append_cons_self_of_not_mem hevent,
      List.splitOn_eq_singleton hline, List.filter_cons_of_neg (by decide),
      List.filter_cons_of_pos (by simp [dataPrefix])]
    exact (List.intercalate_singleton ..).trans (data_of_objectLine _ _)
  | heartbeat =>
    show frameData ": heartbeat".toList = []
    rw [frameData, List.splitOn_eq_singleton (by decide), List.filter_cons_of_neg (by decide)]
    rfl

/-- Two lines make no frame, and the last one is not empty. -/
theorem isFrame_of_lines {s t : Text} (hs : '\n' ∉ s) (ht : '\n' ∉ t) (hne : t ≠ []) :
    (∀ c ∈ (s ++ '\n' :: t).getLast?, c ≠ '\n') ∧ (splitFrames '\n' (s ++ '\n' :: t)).1 = [] := by
  refine ⟨fun c hc heq => ht ?_, no_frames_of_one_mark hs ht⟩
  rw [List.getLast?_append, List.getLast?_cons_of_ne_nil hne, List.getLast?_eq_some_getLast hne,
    Option.some_or, Option.mem_some_iff] at hc
  rw [← heq, ← hc]
  exact List.getLast_mem hne

/-- The text of a frame holds no frame, and does not end in a line break. -/
theorem body_isFrame (frame : Frame) :
    (∀ c ∈ frame.body.getLast?, c ≠ '\n') ∧ (splitFrames '\n' frame.body).1 = [] := by
  have hobject : ∀ w fields, '\n' ∉ dataPrefix ++ ' ' :: objectText w fields := fun w fields =>
    notMem_of_printable (printable_objectLine w fields) (by decide)
  have hone : ∀ {line : Text}, '\n' ∉ line →
      (∀ c ∈ line.getLast?, c ≠ '\n') ∧ (splitFrames '\n' line).1 = [] := fun h =>
    ⟨fun c hc heq => h (heq ▸ List.mem_of_mem_getLast? hc), no_frames_of_notMem h⟩
  cases frame with
  | data event => exact hone (hobject _ _)
  | done => exact hone (by decide)
  | heartbeat => exact hone (by decide)
  | job response => exact isFrame_of_lines (by decide) (hobject _ _) (by simp [dataPrefix])

/-- The frames of the text that the backend wrote are the frames that it wrote. -/
theorem splitFrames_text (frames : List Frame) (rest : Text) :
    splitFrames '\n' ((frames.map Frame.text).flatten ++ rest) =
      (frames.map Frame.body ++ (splitFrames '\n' rest).1, (splitFrames '\n' rest).2) := by
  induction frames with
  | nil => rfl
  | cons frame frames ih =>
    have htext : ((frame :: frames).map Frame.text).flatten ++ rest =
        frame.body ++ '\n' :: '\n' :: ((frames.map Frame.text).flatten ++ rest) := by
      simp [Frame.text]
    rw [htext, splitFrames_frame (body_isFrame frame).1 (body_isFrame frame).2, ih]
    rfl

/-- A frame with the text of an object is read as that text. -/
theorem readFrames_object {frame : Text} {w : JsonWriter} {fields : List (Text × Json)}
    (h : frameData frame = objectText w fields) (frames : List Text) :
    readFrames (frame :: frames) =
      (objectText w fields :: (readFrames frames).1, (readFrames frames).2) := by
  have hbrace : objectText w fields ≠ doneMarker := by
    rw [objectText_eq_cons]
    exact fun heq => absurd (List.cons.inj heq).1 (by decide)
  have hne : objectText w fields ≠ [] := by
    rw [objectText_eq_cons]
    exact List.cons_ne_nil _ _
  rw [readFrames, h, if_neg hbrace, if_neg hne]

/-- The client reads the payloads of the frames before the terminal marker. -/
theorem readFrames_body (frames : List Frame) :
    (readFrames (frames.map Frame.body ++ [[]])).1 =
      (frames.takeWhile fun frame => !frame.isDone).filterMap Frame.payload := by
  induction frames with
  | nil => rfl
  | cons frame frames ih =>
    have hdata := frameData_body frame
    rw [List.map_cons, List.cons_append]
    cases frame with
    | done =>
      rw [readFrames, hdata]
      rfl
    | heartbeat =>
      rw [readFrames, hdata]
      exact ih
    | data event =>
      rw [readFrames_object hdata, ih]
      rfl
    | job response =>
      rw [readFrames_object hdata, ih]
      rfl

/-- A frame has no carriage return. -/
theorem cr_notMem_text (frame : Frame) : '\r' ∉ frame.text := by
  have hobject : ∀ w fields, '\r' ∉ dataPrefix ++ ' ' :: objectText w fields := fun w fields =>
    notMem_of_printable (printable_objectLine w fields) (by decide)
  rw [Frame.text, List.mem_append, not_or]
  refine ⟨?_, by decide⟩
  cases frame with
  | data event => exact hobject _ _
  | done => decide
  | heartbeat => decide
  | job response =>
    intro hmem
    rcases List.mem_append.mp hmem with hevent | hline
    · exact absurd hevent (by decide)
    · exact hobject _ _ ((List.mem_cons.mp hline).resolve_left (by decide))

/-- The client reads a stream of frames by its text, however it is cut into chunks. -/
theorem apiStream_of_frames (jsonParse : Text → Except ε β) (frames : List Frame)
    {chunks : List Text} (hchunks : chunks.flatten = (frames.map Frame.text).flatten) :
    apiStream jsonParse [] chunks = yieldParsed jsonParse
      ((frames.takeWhile fun frame => !frame.isDone).filterMap Frame.payload) := by
  have hcr : '\r' ∉ chunks.flatten := by
    intro hmem
    rw [hchunks, List.mem_flatten] at hmem
    obtain ⟨text, htext, hmem⟩ := hmem
    obtain ⟨frame, -, rfl⟩ := List.mem_map.mp htext
    exact cr_notMem_text frame hmem
  rw [apiStream_eq jsonParse List.not_mem_nil hcr, List.nil_append, hchunks, splitFrames_text]
  exact congrArg (yieldParsed jsonParse) (readFrames_body frames)

/-- However the text of the backend is cut into chunks, the client yields the JSON of the frames
before the terminal marker, in their order. -/
theorem apiStream_frames (jsonParse : Text → Except ε β) (frames : List Frame)
    (chunks : List Text) (hchunks : chunks.flatten = (frames.map Frame.text).flatten) :
    apiStream jsonParse [] chunks = yieldParsed jsonParse
      ((frames.takeWhile fun frame => !frame.isDone).filterMap Frame.payload) :=
  apiStream_of_frames jsonParse frames hchunks

/-- The client yields the events of an answer, and the report of its failure. -/
theorem apiStream_sse (jsonParse : Text → Except ε β) (events : List (List (Text × Json)))
    (failure : Option (List (Text × Json))) (chunks : List Text)
    (hchunks : chunks.flatten = ((sse events failure).map Frame.text).flatten) :
    apiStream jsonParse [] chunks =
      yieldParsed jsonParse ((events ++ failure.toList).map (objectText .dumps)) := by
  have hlive : ∀ l : List (List (Text × Json)), (l.map Frame.data ++ [Frame.done]).takeWhile
      (fun frame => !frame.isDone) = l.map Frame.data := by
    intro l
    induction l with
    | nil => rfl
    | cons event l ih => exact congrArg (Frame.data event :: ·) ih
  rw [apiStream_of_frames jsonParse _ hchunks, sse, ← List.map_append, hlive,
    List.filterMap_map]
  exact congrArg (yieldParsed jsonParse) (congrFun List.filterMap_eq_map _)

/-- A stream that is cut inside a separator and inside the terminal marker. -/
theorem apiStream_frames_cut :
    apiStream (fun t => (.ok t : Except Unit Text)) []
        ["event: jo".toList, "b\ndata: \x7b\x7d\n".toList, "\n".toList,
          ": heartbeat\n\ndata: [DO".toList, "NE]\n\ndata: \x7b\x7d\n\n".toList] =
      (["\x7b\x7d".toList], none) :=
  apiStream_frames _ [.job [], .heartbeat, .done, .data []] _ (by decide +kernel)

end Maeglagi.Events
