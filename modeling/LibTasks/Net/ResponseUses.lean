import LibTasks.Net.HttpReader

/-!
# The uses of a response object

`http_sender` reads one response after the other into the same `http_response`, the handler
takes the content through `read` or `content_istream`, and `clear` makes the object ready for
the next response.  Whatever calls were made on a response, also calls of `read_data` that
raised an exception, each read from the socket has room in the content buffer.
-/

namespace LibTasks.Net

open LibTasks.Foundation LibTasks.Tools

/-- A response and the state of its `m_content_istream`. -/
structure ResponseObject where
  response : HttpResponse := {}
  /-- `eofbit` or `failbit` is set. -/
  blocked : Bool := false
  deriving DecidableEq

/-- The calls that are made on a response. -/
inductive Use where
  | readData (sock : Socket)
  | read (size : Nat)
  /-- Characters are extracted from `content_istream`. -/
  | extract (count : Nat)
  | clear

namespace ResponseObject

/-- Extract characters from `m_content_istream`.  The stream is blocked when it reaches its
end before it has all of them, and stays so. -/
def extract (x : ResponseObject) (count : Nat) : Bytes × ResponseObject :=
  if x.blocked then
    ([], x)
  else
    let (data, contentBuffer) := x.response.contentBuffer.read count
    (data, { response := { x.response with contentBuffer }, blocked := data.length < count })

/-- A call on a response. -/
def use (x : ResponseObject) : Use → ResponseObject
  | .readData sock => { x with response := (x.response.readData sock).object }
  | .read size => { x with response.toHttpBase := (x.response.toHttpBase.read size).2 }
  | .extract count => (x.extract count).2
  | .clear => { x with response := x.response.clear }

/-- A new response after any calls. -/
def after (uses : List Use) : ResponseObject := uses.foldl use {}

end ResponseObject

namespace HttpResponse

variable {r q : HttpResponse} {sock : Socket} {b : Buffer} {bytes rest : Bytes}

/-! ## What a refused line leaves -/

/-- The response `q` is what the parser leaves of `r` when it fails. -/
structure Refused (r q : HttpResponse) : Prop where
  ok : q.contentBuffer.Ok
  pptr : q.contentBuffer.pptr = r.contentBuffer.pptr
  start : q.lastLineStart ≤ q.contentBuffer.pptr
  state : q.state = r.state
  noContent : q.contentStart = 0

theorem parseStatus_refused {e : Failure} (refused : r.parseStatus = (.error e, q)) :
    q.contentBuffer = r.contentBuffer ∧ q.lastLineStart = r.lastLineStart ∧
      q.state = r.state ∧ q.contentStart = r.contentStart := by
  rw [parseStatus] at refused
  split at refused
  · cases refused
    exact ⟨rfl, rfl, rfl, rfl⟩
  · rw [setStatusText] at refused
    dsimp only at refused
    split at refused
    · cases refused
      exact ⟨rfl, rfl, rfl, rfl⟩
    · cases refused

theorem parseHeader_refused {e : Failure} (refused : r.parseHeader = (.error e, q)) : q = r := by
  rw [parseHeader] at refused
  split at refused
  · cases refused
    rfl
  · split at refused
    · cases refused
      rfl
    · cases refused

theorem parseLine_refused {e : Failure} (refused : r.parseLine = (.error e, q)) :
    q.contentBuffer = r.contentBuffer ∧ q.lastLineStart = r.lastLineStart ∧
      q.state = r.state ∧ q.contentStart = r.contentStart := by
  rw [parseLine] at refused
  split at refused
  · next e' q' failed =>
      cases refused
      split at failed
      · exact parseStatus_refused failed
      · rw [parseHeader_refused failed]
        exact ⟨rfl, rfl, rfl, rfl⟩
  · cases refused

/-- The empty line is followed by the content, so that only its headers can be refused. -/
theorem Parsing.startContent_refused (parsing : r.Parsing) {start : Nat} {memory : Bytes}
    (later : r.lastLineStart ≤ start) (before : start ≤ r.contentBuffer.pptr)
    (blank : r.contentBuffer.storage.drop start = 13 :: 10 :: memory) {e : Failure}
    (refused : startContent { r with lastLineStart := start } = (.error e, q)) :
    q = { r with lastLineStart := start } := by
  have reached : Reached r r.fields (13 :: 10 :: memory) { r with lastLineStart := start } :=
    ⟨rfl, rfl, rfl, rfl, rfl, parsing.ended, rfl, later, before, blank, parsing.noContent⟩
  have behind := reached.behind
  have bounded := parsing.ok.pptr
  rw [reached.startContent_eq (by dsimp only at behind ⊢; omega)] at refused
  split_ifs at refused
  · cases refused
    rfl
  · cases refused
  · cases refused
    rfl

/-- A loop of the parser that fails has not moved behind what was received. -/
theorem Parsing.parseLoop_refused (parsing : r.Parsing) {fuel : Nat} {e : Failure}
    (refused : parseLoop fuel r = (.error e, q)) : Refused r q := by
  induction fuel generalizing r with
  | zero =>
      cases refused
      exact ⟨parsing.ok, rfl, parsing.start, rfl, parsing.noContent⟩
  | succ fuel ih =>
      obtain ⟨start, line, later, near, before, memory⟩ := parsing.findLine_eq
      cases found : findCrlf
          ((skipLf (r.contentBuffer.storage.drop r.lastLineStart)).takeWhile (· ≠ 0)) with
      | none =>
          rw [found] at line
          rw [parseLoop_none line] at refused
          cases refused
      | some len =>
          rw [found] at line
          cases len with
          | zero =>
              have scan : scanLines takeLine r.fields
                  (r.contentBuffer.storage.drop r.lastLineStart) = _ := scanLines_of_zero found
              have ⟨tail, blank⟩ := exists_of_blank scan
              rw [parseLoop_blank line] at refused
              rw [parsing.startContent_refused later before (memory.trans blank) refused]
              exact ⟨parsing.ok, rfl, before, rfl, parsing.noContent⟩
          | succ len =>
              have there : findCrlf ((r.contentBuffer.storage.drop start).takeWhile (· ≠ 0)) =
                  some (len + 1) := memory ▸ found
              have next := parsing.parseLine_next later near before
                (parsing.version_inside near memory there) there
              cases taken : r.fields.takeLine
                  ((r.contentBuffer.storage.drop start).set (len + 1) 0) with
              | error e' =>
                  rw [taken] at next
                  have ⟨last, failed⟩ := exists_of_fst_eq next
                  have ⟨buffer, place, state, content⟩ := parseLine_refused failed
                  simp only [parseLoop, line, failed] at refused
                  cases refused
                  have ok := parsing.ok
                  refine ⟨?_, by rw [buffer]; rfl, ?_, state, content.trans parsing.noContent⟩
                  · rw [buffer]
                    exact ⟨ok.gptr, ok.pptr,
                      Nat.le_trans ok.size (Nat.le_of_eq List.length_set.symm),
                      Nat.le_trans (Nat.le_of_eq List.length_set) ok.capacity⟩
                  · rw [place, buffer]
                    exact before
              | ok h =>
                  rw [taken] at next
                  obtain ⟨last, parsed, noContent, after, moves, again, reached⟩ := next
                  rw [parseLoop_ok line parsed noContent fuel, moves] at refused
                  have rest := ih again refused
                  exact ⟨rest.ok, rest.pptr.trans reached.pptr, rest.start,
                    rest.state.trans reached.state, rest.noContent⟩

/-- A response can be read on after its text was refused. -/
theorem Arrives.reading_of_refused (arrives : r.Arrives sock b bytes rest) (reading : r.Reading)
    {e : Failure}
    (refused : parseReceived { r with contentBuffer := received b bytes } = (.error e, q)) :
    q.Reading := by
  have state := (arrives.parse_failed reading refused).1
  rw [parseReceived, if_pos state, arrives.store_eq] at refused
  have left := (arrives.parsing reading state).parseLoop_refused refused
  have same : q.state = .readData := left.state.trans state
  refine ⟨left.ok, left.start, .inl same, fun _ => left.noContent, ?_, ?_⟩
  · intro other
    cases same.symm.trans other
  · intro other
    cases same.symm.trans other

/-! ## Room for every read -/

/-- A read for a block or more that ends before the last byte of the buffer. -/
structure InRoom (call : ReadCall) : Prop where
  block : 4095 ≤ call.len
  inside : call.offset + call.len + 1 ≤ call.size
  capacity : call.size ≤ call.capacity

theorem Room.inRoom (room : Room r.contentBuffer b) : InRoom (roomCall b) := by
  have size := room.size
  rw [← room.pptr, readBufferSizeBlock] at size
  refine ⟨?_, ?_, room.ok.size⟩
  · change 4095 ≤ b.size - b.pptr - 1
    omega
  · change b.pptr + (b.size - b.pptr - 1) + 1 ≤ b.size
    omega

/-- All reads on the socket since `before` had room. -/
def RoomSince (before : List ReadCall) (sock : Socket) : Prop :=
  ∃ calls, sock.reads = before ++ calls ∧ ∀ call ∈ calls, InRoom call

theorem RoomSince.advance {before : List ReadCall} (since : RoomSince before sock)
    (room : Room r.contentBuffer b) (left : Bytes) :
    RoomSince before (sock.advance (roomCall b) left) := by
  have ⟨calls, reads, inRoom⟩ := since
  refine ⟨calls ++ [roomCall b], ?_, ?_⟩
  · rw [← List.append_assoc, ← reads]
    rfl
  · intro call member
    rcases List.mem_append.mp member with earlier | last
    · exact inRoom call earlier
    · cases List.mem_singleton.mp last
      exact room.inRoom

/-- An iteration, also one that fails, leaves a response that can be read on, and makes no
read but one that has room. -/
theorem Reading.leaves {before : List ReadCall}
    (holds : r.Reading ∧ RoomSince before sock) :
    (r.readIteration sock).object.Reading ∧
      RoomSince before (r.readIteration sock).socket := by
  have ⟨reading, since⟩ := holds
  rcases attempt_cases reading.ok sock with
    tooLarge | ⟨b, e, room, failed⟩ | ⟨b, room, again⟩ | ⟨b, bytes, rest, arrives⟩
  · rw [readIteration_tooLarge tooLarge]
    exact holds
  · rw [room.readIteration_failed failed]
    exact ⟨room.reading reading, since.advance room _⟩
  · rw [room.readIteration_again (room.receive_again again)]
    exact ⟨room.reading reading, since.advance room _⟩
  · cases parse : parseReceived { r with contentBuffer := received b bytes } with
    | mk outcome q =>
        cases outcome with
        | error e =>
            rw [arrives.readIteration_refused parse]
            exact ⟨arrives.reading_of_refused reading parse, since.advance arrives.room _⟩
        | ok _ =>
            have result := arrives.readIteration_eq reading parse
            have next := reading.next result
            rw [result]
            exact ⟨next, since.advance arrives.room _⟩

/-- A response on which `read_data` can be called. -/
def Usable (r : HttpResponse) : Prop := r.Fresh ∨ r.Reading

theorem Usable.ok (usable : r.Usable) : r.contentBuffer.Ok := by
  rcases usable with fresh | reading
  · exact fresh.content.ok
  · exact reading.ok

theorem Usable.starts (usable : r.Usable) : ∃ q, r.startReading = .ok q ∧ q.Reading := by
  rcases usable with fresh | reading
  · exact fresh.starts
  · exact ⟨r, if_neg reading.begun, reading⟩

/-- A call of `read_data`, whatever it returns. -/
theorem Usable.readData (usable : r.Usable) (sock : Socket) :
    (r.readData sock).object.Usable ∧ RoomSince sock.reads (r.readData sock).socket := by
  have ⟨q, started, reading⟩ := usable.starts
  have since : RoomSince sock.reads sock :=
    ⟨[], (List.append_nil _).symm, fun _ member => nomatch member⟩
  rw [HttpResponse.readData, started]
  dsimp only
  split
  · exact ⟨.inr reading, since⟩
  · have left := Outcome.loop_leaves (P := fun (r : HttpResponse) next =>
      r.Reading ∧ RoomSince sock.reads next) Reading.leaves (sock.incoming.length + 1)
      ⟨reading, since⟩
    exact ⟨.inr left.1, left.2⟩

/-- Reading the content moves the get pointer only. -/
theorem Usable.consume (usable : r.Usable) (size : Nat) :
    Usable { r with contentBuffer := (r.contentBuffer.read size).2 } := by
  rcases usable with fresh | reading
  · have nothing : r.contentBuffer.toRead = 0 := by
      rw [fresh.content.ok.toRead_eq, fresh.content.size, fresh.content.gptr]
      rfl
    have same : (r.contentBuffer.read size).2 = r.contentBuffer := by
      rw [Buffer.read, nothing]
      simp [Buffer.movePtrRead]
    rw [same]
    exact .inl fresh
  · have moved := (reading.ok.read_eq size).2.1
    exact .inr ⟨moved, reading.start, reading.state, reading.data, reading.content, reading.done⟩

end HttpResponse

namespace ResponseObject

open HttpResponse

/-- Every call leaves a response on which `read_data` can be called. -/
theorem use_usable {x : ResponseObject} (usable : x.response.Usable) (u : Use) :
    (x.use u).response.Usable := by
  cases u with
  | readData sock => exact (usable.readData sock).1
  | read size => exact usable.consume size
  | extract count =>
      rw [use, extract]
      split
      · exact usable
      · exact usable.consume count
  | clear => exact .inl (fresh_clear usable.ok)

theorem after_usable (uses : List Use) : (after uses).response.Usable := by
  induction uses using List.reverseRecOn with
  | nil => exact .inl fresh_default
  | append_singleton uses u ih =>
      rw [after, List.foldl_append]
      exact use_usable ih u

/-- **Room for every read.**  After any calls on a response, each read that `read_data` makes
asks for a block at least and ends, with the zero byte behind it, inside of the buffer; and
where the buffer is enlarged for it, the bytes received so far are kept. -/
theorem reads_have_room (uses : List Use) (sock : Socket) :
    (∃ calls, ((after uses).response.readData sock).socket.reads = sock.reads ++ calls ∧
      ∀ call ∈ calls, 4095 ≤ call.len ∧ call.offset + call.len + 1 ≤ call.size ∧
        call.size ≤ call.capacity) ∧
      ∀ head ∈ heads ⟨(after uses).response, sock, none⟩, ∀ b,
        makeRoom head.1.contentBuffer = .ok b →
          b.pptr = head.1.contentBuffer.pptr ∧
            b.storage.take b.pptr = head.1.contentBuffer.storage.take b.pptr := by
  have usable := after_usable uses
  constructor
  · have ⟨calls, reads, inRoom⟩ := (usable.readData sock).2
    exact ⟨calls, reads, fun call member =>
      ⟨(inRoom call member).block, (inRoom call member).inside, (inRoom call member).capacity⟩⟩
  · intro head member b made
    have ⟨q, started, reading⟩ := usable.starts
    have invariant : head.1.Reading := by
      rw [heads] at member
      split at member
      · cases member
      · rw [started] at member
        exact (Outcome.loop_rule (P := fun r _ => r.Reading)
          (fun holds result => holds.next result) _ reading).1 head member
    rcases makeRoom_cases invariant.ok with tooLarge | ⟨next, room⟩
    · rw [tooLarge] at made
      cases made
    · cases room.made.symm.trans made
      exact ⟨room.pptr, by rw [room.pptr]; exact room.kept⟩

end ResponseObject

end LibTasks.Net
