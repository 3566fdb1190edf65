import LibTasks.Tools.Buffer

/-!
# `tasks::tools::buffer` as a stream

The stream operations of the buffer, over what `std::streambuf` does with its put
and get areas, and the theorem that they make the buffer a queue of bytes: what is
read is what was written, in order, whatever the vector held before and however
often it is reallocated.
-/

namespace LibTasks.Tools

open LibTasks.Foundation

namespace Buffer

/-! ## The operations -/

/-- Store a character at the put pointer, and move the pointer over it. -/
def putNext (b : Buffer) (c : UInt8) : Except Fault Buffer := do
  let b ← b.store b.pptr [c]
  .ok (b.movePtrWrite 1)

/-- `sputc` and `overflow`, which call each other until the put area has room. -/
def sputcLoop : Nat → Buffer → UInt8 → Except Fault (UInt8 × Buffer)
  | 0, _, _ => .error .diverges
  | fuel + 1, b, c => do
      let b ← b.setSize ((b.size + 1) % 2 ^ 64)
      if b.pptr < b.size then
        let b ← b.putNext c
        .ok (c, b)
      else
        sputcLoop fuel b c

/-- `sputc`, which returns the character. -/
def sputc (b : Buffer) (c : UInt8) : Except Fault (UInt8 × Buffer) :=
  sputcLoop (b.pptr - b.size + 1) b c

/-- `overflow`. -/
def overflow (b : Buffer) (ch : UInt8) : Except Fault (UInt8 × Buffer) := b.sputc ch

/-- `std::streambuf::sputc`, as an `ostream` calls it. -/
def streamSputc (b : Buffer) (c : UInt8) : Except Fault (UInt8 × Buffer) :=
  if b.pptr < b.size then do
    let b ← b.putNext c
    .ok (c, b)
  else
    b.overflow c

/-- `std::streambuf::xsputn`: put one character after the other, and count them. -/
def streamXsputn : Buffer → Bytes → Except Fault (Nat × Buffer)
  | b, [] => .ok (0, b)
  | b, c :: data => do
      let (_, b) ← b.streamSputc c
      let (count, b) ← b.streamXsputn data
      .ok (count + 1, b)

/-- `xsputn`, that is `write`, with its result. -/
def xsputn (b : Buffer) (s : Bytes) : Except Fault (Nat × Buffer) := do
  let b ← b.setSize ((b.size + s.length) % 2 ^ 64)
  b.streamXsputn s

/-- `std::streambuf::sbumpc`: the next character of the get area, and `none` at its
end. -/
def streamSbumpc (b : Buffer) : Except Fault (Option UInt8 × Buffer) :=
  if b.gptr < b.size then
    match b.storage[b.gptr]? with
    | some c => .ok (some c, b.movePtrRead 1)
    | none => .error .outOfBounds
  else
    .ok (none, b)

/-- `std::streambuf::xsgetn`: get up to `count` characters, one after the other. -/
def streamXsgetn : Buffer → Nat → Except Fault (Bytes × Buffer)
  | b, 0 => .ok ([], b)
  | b, count + 1 => do
      match ← b.streamSbumpc with
      | (none, b) => .ok ([], b)
      | (some c, b) =>
          let (data, b) ← b.streamXsgetn count
          .ok (c :: data, b)

/-- `xsgetn`, that is `read`. -/
def xsgetn (b : Buffer) (count : Nat) : Except Fault (Bytes × Buffer) :=
  b.streamXsgetn (min count b.toRead.toNat)

/-! ## The areas as a whole -/

variable {b : Buffer}

theorem putNext_eq {c : UInt8} (inside : b.pptr < b.storage.length) :
    b.putNext c =
      .ok { b with storage := overwrite b.storage b.pptr [c], pptr := b.pptr + 1 } := by
  have stored : b.store b.pptr [c] = .ok { b with storage := overwrite b.storage b.pptr [c] } :=
    if_pos inside
  rw [putNext, stored]
  rfl

/-- Characters that the put area has room for are copied there. -/
theorem streamXsputn_eq {data : Bytes} (room : b.pptr + data.length ≤ b.size)
    (size : b.size ≤ b.storage.length) :
    b.streamXsputn data = .ok (data.length, { b with
      storage := overwrite b.storage b.pptr data, pptr := b.pptr + data.length }) := by
  induction data generalizing b with
  | nil =>
      rw [overwrite_nil]
      rfl
  | cons c data ih =>
      rw [List.length_cons] at room
      have inside : b.pptr < b.storage.length := by omega
      have length : (overwrite b.storage b.pptr [c]).length = b.storage.length :=
        length_overwrite inside
      have rest := @ih { b with storage := overwrite b.storage b.pptr [c], pptr := b.pptr + 1 }
        (show b.pptr + 1 + data.length ≤ b.size by omega)
        (show b.size ≤ (overwrite b.storage b.pptr [c]).length by omega)
      have both : overwrite (overwrite b.storage b.pptr [c]) (b.pptr + 1) data =
          overwrite b.storage b.pptr (c :: data) := overwrite_append (Nat.le_of_lt inside) data
      simp only [streamXsputn, streamSputc, if_pos (show b.pptr < b.size by omega),
        putNext_eq inside, bind, Except.bind, rest, both, List.length_cons]
      congr 3
      omega

/-- Characters that the get area holds are copied from there. -/
theorem streamXsgetn_eq {count : Nat} (inside : b.gptr + count ≤ b.size)
    (size : b.size ≤ b.storage.length) :
    b.streamXsgetn count = .ok (slice b.storage b.gptr count, b.movePtrRead count) := by
  induction count generalizing b with
  | zero => rfl
  | succ count ih =>
      have within : b.gptr < b.storage.length := by omega
      have rest := @ih (b.movePtrRead 1) (show b.gptr + 1 + count ≤ b.size by omega) size
      have first : slice b.storage b.gptr (count + 1) =
          b.storage[b.gptr] :: slice b.storage (b.gptr + 1) count := by
        rw [slice, List.drop_eq_getElem_cons within, List.take_succ_cons, slice]
      simp only [streamXsgetn, streamSbumpc, if_pos (show b.gptr < b.size by omega),
        List.getElem?_eq_getElem within, bind, Except.bind, rest, first]
      congr 2
      simp only [movePtrRead, Nat.add_assoc, Nat.add_comm 1]

/-- `xsputn` is `write`, and returns the number of characters. -/
theorem Ok.xsputn_eq (ok : b.Ok) {data : Bytes}
    (small : b.size + data.length + 1024 ≤ maxSize) :
    b.xsputn data = (b.write data).map fun next => (data.length, next) := by
  have modulus : (b.size + data.length) % 2 ^ 64 = b.size + data.length := by
    unfold maxSize at small
    omega
  have inside := ok.pptr
  rw [ok.write_eq small, xsputn, modulus, ok.setSize_eq small]
  simp only [bind, Except.bind, Except.map]
  exact streamXsputn_eq (Nat.add_le_add_right inside _) (le_length_grow _ _)

/-- `xsgetn` is `read`. -/
theorem Ok.xsgetn_eq (ok : b.Ok) (count : Nat) : b.xsgetn count = .ok (b.read count) := by
  have inside := ok.gptr
  have left := ok.toRead_eq
  rw [xsgetn, streamXsgetn_eq (by omega) ok.size]
  rfl

/-- `sputc` is a `write` of one character. -/
theorem Ok.sputc_eq (ok : b.Ok) {c : UInt8} (small : b.size + 1 + 1024 ≤ maxSize) :
    b.sputc c = (b.write [c]).map fun next => (c, next) := by
  have modulus : (b.size + 1) % 2 ^ 64 = b.size + 1 := by
    unfold maxSize at small
    omega
  have inside := ok.pptr
  have room := le_length_grow b.storage (b.size + 1)
  have wrote : b.write [c] = _ := ok.write_eq small
  rw [wrote, sputc, sputcLoop, modulus, ok.setSize_eq small]
  simp only [bind, Except.bind, Except.map]
  rw [if_pos (Nat.lt_succ_of_le inside), putNext_eq (by dsimp only; omega)]
  rfl

/-! ## Writes that return -/

/-- The buffer `next` is `b` after something was written. -/
structure Extends (b next : Buffer) : Prop where
  ok : next.Ok
  gptr : next.gptr = b.gptr
  size : b.size ≤ next.size

theorem Extends.trans {first second third : Buffer} (one : first.Extends second)
    (two : second.Extends third) : first.Extends third :=
  ⟨two.ok, two.gptr.trans one.gptr, Nat.le_trans one.size two.size⟩

theorem setSize_of_ok {s : Nat} {sized : Buffer} (success : b.setSize s = .ok sized) :
    sized.size = s ∧ sized.gptr = b.gptr ∧ sized.pptr = b.pptr ∧
      (s ≤ b.storage.length ∧ sized.storage = b.storage ∨
        sized.storage.length = (s + 1024) % 2 ^ 64 ∧ (s + 1024) % 2 ^ 64 ≤ maxSize) := by
  unfold setSize at success
  split at success
  · dsimp only at success
    split at success
    · cases success
    · next larger fits =>
        by_cases read : b.gptr ≤ b.size
        · by_cases written : b.pptr ≤ b.size
          · simp only [ptr, if_pos read, if_pos written, bind, Except.bind,
              Except.ok.injEq] at success
            subst success
            exact ⟨rfl, rfl, rfl, .inr ⟨length_resize _ _, Nat.not_lt.mp fits⟩⟩
          · simp [ptr, read, written, bind, Except.bind] at success
        · simp [ptr, read, bind, Except.bind] at success
  · next fits =>
      cases success
      exact ⟨rfl, rfl, rfl, .inl ⟨Nat.not_lt.mp fits, rfl⟩⟩

/-- A write that returns has appended, whatever the size of the data. -/
theorem Ok.write_of_ok (ok : b.Ok) {data : Bytes} {next : Buffer}
    (success : b.write data = .ok next) :
    b.Extends next ∧ next.size = b.size + data.length := by
  have gptr := ok.gptr
  have pptr := ok.pptr
  have size := ok.size
  have capacity := ok.capacity
  unfold maxSize at capacity
  unfold write at success
  cases resized : b.setSize ((b.size + data.length) % 2 ^ 64) with
  | error f =>
      simp only [resized, bind, Except.bind] at success
      cases success
  | ok sized =>
      obtain ⟨newSize, sameGet, samePut, storage⟩ := setSize_of_ok resized
      simp only [resized, bind, Except.bind] at success
      split at success
      · next inside =>
          by_cases room : sized.pptr + data.length ≤ sized.storage.length
          · simp only [store, if_pos room] at success
            cases success
            have length : (overwrite sized.storage sized.pptr data).length =
                sized.storage.length := length_overwrite room
            have exact : sized.size = b.size + data.length := by omega
            have limit : sized.size ≤ sized.storage.length ∧ sized.storage.length ≤ maxSize := by
              rcases storage with ⟨enough, same⟩ | ⟨grown, small⟩
              · rw [same, newSize]
                exact ⟨enough, ok.capacity⟩
              · rw [grown]
                exact ⟨by omega, small⟩
            refine ⟨⟨⟨?_, ?_, ?_, ?_⟩, sameGet, ?_⟩, exact⟩
            · change sized.gptr ≤ sized.size
              omega
            · exact inside
            · exact Nat.le_trans limit.1 (Nat.le_of_eq length.symm)
            · exact Nat.le_trans (Nat.le_of_eq length) limit.2
            · change b.size ≤ sized.size
              omega
          · simp [store, room] at success
      · cases success

/-- The put pointer moves over what a write that returns has written. -/
theorem pptr_of_write {data : Bytes} {next : Buffer} (success : b.write data = .ok next) :
    next.pptr = b.pptr + data.length := by
  unfold write at success
  cases resized : b.setSize ((b.size + data.length) % 2 ^ 64) with
  | error f =>
      simp only [resized, bind, Except.bind] at success
      cases success
  | ok sized =>
      obtain ⟨-, -, samePut, -⟩ := setSize_of_ok resized
      simp only [resized, bind, Except.bind] at success
      split at success
      · by_cases room : sized.pptr + data.length ≤ sized.storage.length
        · simp only [store, if_pos room] at success
          cases success
          exact congrArg (· + data.length) samePut
        · simp only [store, if_neg room] at success
          cases success
      · cases success

/-- Writing one thing after the other extends the buffer, if each write does. -/
theorem foldlM_extends {α : Type} {step : Buffer → α → Except Fault Buffer}
    (each : ∀ {b next x}, b.Ok → step b x = .ok next → b.Extends next) (ok : b.Ok)
    {items : List α} {next : Buffer} (success : items.foldlM step b = .ok next) :
    b.Extends next := by
  induction items generalizing b with
  | nil =>
      cases success
      exact ⟨ok, rfl, Nat.le_refl _⟩
  | cons item items ih =>
      rw [List.foldlM_cons] at success
      cases first : step b item with
      | error f => simp [first, bind, Except.bind] at success
      | ok middle =>
          simp only [first, bind, Except.bind] at success
          have extended := each ok first
          exact extended.trans (ih extended.ok success)

end Buffer

/-! ## A queue of bytes -/

/-- An operation on the stream. -/
inductive StreamOp where
  | write (data : Bytes)
  | sputc (c : UInt8)
  /-- A character that an `ostream` puts. -/
  | put (c : UInt8)
  | read (count : Nat)
  deriving DecidableEq, Repr

/-- What an operation returns. -/
inductive Reply where
  | count (n : Nat)
  | char (c : UInt8)
  | data (bytes : Bytes)
  deriving DecidableEq, Repr

namespace StreamOp

/-- The bytes that an operation writes. -/
def written : StreamOp → Bytes
  | write data => data
  | sputc c => [c]
  | put c => [c]
  | read _ => []

/-- The number of bytes that an operation takes from a queue. -/
def taken (queue : Bytes) : StreamOp → Nat
  | read count => min count queue.length
  | _ => 0

/-- What a queue of bytes replies. -/
def reply (queue : Bytes) : StreamOp → Reply
  | write data => .count data.length
  | sputc c => .char c
  | put c => .char c
  | read count => .data (queue.take count)

/-- The replies of a queue of bytes to a sequence of operations. -/
def replies (queue : Bytes) : List StreamOp → List Reply
  | [] => []
  | op :: ops => op.reply queue :: replies ((queue ++ op.written).drop (op.taken queue)) ops

end StreamOp

/-- The bytes that a reply returns from the stream. -/
def Reply.bytes : Reply → Bytes
  | data bytes => bytes
  | _ => []

namespace Buffer

/-- An operation of the buffer. -/
def perform (b : Buffer) : StreamOp → Except Fault (Reply × Buffer)
  | .write data => (b.xsputn data).map fun (n, b) => (.count n, b)
  | .sputc c => (b.sputc c).map fun (c, b) => (.char c, b)
  | .put c => (b.streamSputc c).map fun (c, b) => (.char c, b)
  | .read count => (b.xsgetn count).map fun (bytes, b) => (.data bytes, b)

/-- A sequence of operations. -/
def run : Buffer → List StreamOp → Except Fault (List Reply × Buffer)
  | b, [] => .ok ([], b)
  | b, op :: ops => do
      let (reply, b) ← b.perform op
      let (replies, b) ← b.run ops
      .ok (reply :: replies, b)

/-- The buffer after the bytes `written` were written, and so many of them read. -/
structure Carries (written : Bytes) (taken : Nat) (b : Buffer) : Prop where
  ok : b.Ok
  gptr : b.gptr = taken
  size : b.size = written.length
  pptr : b.pptr = b.size
  text : b.storage.take b.size = written

variable {b : Buffer} {written : Bytes} {taken : Nat}

theorem Cleared.carries (cleared : b.Cleared) : b.Carries [] 0 :=
  ⟨cleared.ok, cleared.gptr, cleared.size, cleared.pptr.trans cleared.size.symm, by
    rw [cleared.size, List.take_zero]⟩

theorem Carries.taken_le (carries : b.Carries written taken) : taken ≤ written.length := by
  rw [← carries.gptr, ← carries.size]
  exact carries.ok.gptr

theorem Carries.slice_eq (carries : b.Carries written taken) {len : Nat}
    (inside : taken + len ≤ written.length) :
    slice b.storage b.gptr len = (written.drop taken).take len := by
  rw [carries.gptr]
  exact slice_of_take carries.text (by rw [carries.size]; exact inside)

theorem Carries.readable_eq (carries : b.Carries written taken) :
    b.readable = written.drop taken := by
  have before := carries.taken_le
  rw [readable, carries.slice_eq (by rw [carries.size, carries.gptr]; omega), carries.size,
    carries.gptr, ← List.length_drop, List.take_length]

/-- Writing appends. -/
theorem Carries.write (carries : b.Carries written taken) {data : Bytes}
    (small : written.length + data.length + 1024 ≤ maxSize) :
    ∃ next, b.write data = .ok next ∧ next.Carries (written ++ data) taken := by
  rw [← carries.size] at small
  refine ⟨_, carries.ok.write_eq small, carries.ok.written small, carries.gptr, ?_, ?_, ?_⟩
  · simp only [List.length_append, carries.size]
  · simp only [carries.pptr]
  · have text := carries.ok.take_written data
    have front : b.storage.take b.pptr = written := by
      rw [carries.pptr]
      exact carries.text
    rw [front] at text
    rw [← text, carries.pptr]

/-- Writing one part after the other. -/
theorem Carries.foldlM_write (carries : b.Carries written taken) {parts : List Bytes}
    (small : written.length + parts.flatten.length + 1024 ≤ maxSize) :
    ∃ next, parts.foldlM Buffer.write b = .ok next ∧
      next.Carries (written ++ parts.flatten) taken := by
  induction parts generalizing b written with
  | nil =>
      refine ⟨b, rfl, ?_⟩
      rw [List.flatten_nil, List.append_nil]
      exact carries
  | cons part parts ih =>
      rw [List.flatten_cons, List.length_append] at small
      have room : written.length + part.length + 1024 ≤ maxSize := by omega
      obtain ⟨middle, wrote, carriesOn⟩ := carries.write room
      obtain ⟨next, wroteRest, carriesAtEnd⟩ := ih carriesOn (by
        rw [List.length_append]
        omega)
      refine ⟨next, ?_, ?_⟩
      · rw [List.foldlM_cons, wrote]
        exact wroteRest
      · rw [List.flatten_cons, ← List.append_assoc]
        exact carriesAtEnd

/-- Reading takes from the front. -/
theorem Carries.read (carries : b.Carries written taken) (count : Nat) :
    (b.read count).1 = (written.drop taken).take count ∧
      (b.read count).2.Carries written (taken + min count (written.drop taken).length) := by
  have before := carries.taken_le
  have left : b.toRead.toNat = (written.drop taken).length := by
    rw [carries.ok.toRead_eq, carries.size, carries.gptr, List.length_drop]
    rfl
  have inside : taken + min count (written.drop taken).length ≤ written.length := by
    rw [List.length_drop]
    omega
  constructor
  · rw [Buffer.read, left]
    dsimp only
    rw [carries.slice_eq inside, ← List.take_eq_take_min]
  · rw [Buffer.read, left]
    refine ⟨⟨?_, carries.ok.pptr, carries.ok.size, carries.ok.capacity⟩, ?_, carries.size,
      carries.pptr, carries.text⟩
    · show b.gptr + _ ≤ b.size
      rw [carries.gptr, carries.size]
      exact inside
    · show b.gptr + _ = _
      rw [carries.gptr]

/-- An operation of the buffer is one of the queue. -/
theorem Carries.perform (carries : b.Carries written taken) (op : StreamOp)
    (small : (written ++ op.written).length + 1024 ≤ maxSize) :
    ∃ next, b.perform op = .ok (op.reply (written.drop taken), next) ∧
      next.Carries (written ++ op.written) (taken + op.taken (written.drop taken)) := by
  rw [List.length_append] at small
  obtain ⟨next, success, carriesOn⟩ := carries.write small
  rw [← carries.size] at small
  cases op with
  | write data =>
      refine ⟨next, ?_, carriesOn⟩
      have called : b.xsputn data = _ := carries.ok.xsputn_eq small
      rw [Buffer.perform, called, show b.write data = .ok next from success]
      rfl
  | sputc c =>
      refine ⟨next, ?_, carriesOn⟩
      rw [Buffer.perform, carries.ok.sputc_eq (c := c) small,
        show b.write [c] = .ok next from success]
      rfl
  | put c =>
      -- The put area is always full, so that the `ostream` gets to `overflow`.
      refine ⟨next, ?_, carriesOn⟩
      have full : ¬b.pptr < b.size := by
        rw [carries.pptr]
        exact Nat.lt_irrefl _
      rw [Buffer.perform, streamSputc, if_neg full, overflow, carries.ok.sputc_eq (c := c) small,
        show b.write [c] = .ok next from success]
      rfl
  | read count =>
      obtain ⟨bytes, carriesOn⟩ := carries.read count
      refine ⟨(b.read count).2, ?_, ?_⟩
      · rw [Buffer.perform, carries.ok.xsgetn_eq, StreamOp.reply, ← bytes]
        rfl
      · rw [StreamOp.written, List.append_nil]
        exact carriesOn

theorem reply_bytes_length (queue : Bytes) (op : StreamOp) :
    (op.reply queue).bytes.length = op.taken queue := by
  cases op with
  | write | sputc | put => rfl
  | read count => exact List.length_take

/-- The operations of the buffer are those of the queue. -/
theorem Carries.run (carries : b.Carries written taken) (ops : List StreamOp)
    (small : (written ++ ops.flatMap StreamOp.written).length + 1024 ≤ maxSize) :
    let replies := StreamOp.replies (written.drop taken) ops
    ∃ final, b.run ops = .ok (replies, final) ∧
      final.Carries (written ++ ops.flatMap StreamOp.written)
        (taken + (replies.flatMap Reply.bytes).length) := by
  induction ops generalizing b written taken with
  | nil =>
      refine ⟨b, rfl, ?_⟩
      rw [List.flatMap_nil, List.append_nil]
      exact carries
  | cons op ops ih =>
      rw [List.flatMap_cons, ← List.append_assoc] at small
      obtain ⟨next, performed, carriesOn⟩ := carries.perform op (by
        rw [List.length_append] at small
        omega)
      obtain ⟨final, ran, carriesAtEnd⟩ := ih carriesOn small
      have queue : (written ++ op.written).drop (taken + op.taken (written.drop taken)) =
          (written.drop taken ++ op.written).drop (op.taken (written.drop taken)) := by
        rw [← List.drop_append_of_le_length carries.taken_le, List.drop_drop]
      rw [queue] at ran carriesAtEnd
      refine ⟨final, ?_, ?_⟩
      · simp only [Buffer.run, performed, ran, bind, Except.bind, StreamOp.replies]
      · rw [StreamOp.replies, List.flatMap_cons, List.flatMap_cons, List.length_append,
          reply_bytes_length, ← Nat.add_assoc, ← List.append_assoc]
        exact carriesAtEnd

/-- What a queue of bytes has returned comes first in what was written. -/
theorem replies_balance (queue : Bytes) (ops : List StreamOp) :
    (StreamOp.replies queue ops).flatMap Reply.bytes <+:
      queue ++ ops.flatMap StreamOp.written := by
  induction ops generalizing queue with
  | nil => exact List.nil_prefix
  | cons op ops ih =>
      have first : (op.reply queue).bytes ++ (queue ++ op.written).drop (op.taken queue) =
          queue ++ op.written := by
        cases op with
        | write | sputc | put => rfl
        | read count =>
            rw [StreamOp.written, List.append_nil, StreamOp.taken, StreamOp.reply, Reply.bytes,
              List.take_eq_take_min, List.take_append_drop]
      have rest := (List.prefix_append_right_inj (op.reply queue).bytes).mpr
        (ih ((queue ++ op.written).drop (op.taken queue)))
      rw [← List.append_assoc, first, List.append_assoc] at rest
      exact rest

/-- From an empty or cleared buffer, with whatever storage it keeps, any sequence of
operations gets the replies of a queue of bytes: what is read comes first in what was
written, and the sizes count the bytes written and read. -/
theorem run_eq_replies (cleared : b.Cleared) (ops : List StreamOp)
    (small : (ops.flatMap StreamOp.written).length + 1024 < 2 ^ 63) :
    ∃ replies final, b.run ops = .ok (replies, final) ∧ replies = StreamOp.replies [] ops ∧
      replies.flatMap Reply.bytes <+: ops.flatMap StreamOp.written ∧
      final.size = (ops.flatMap StreamOp.written).length ∧ final.pptr = final.size ∧
      final.toRead = ((ops.flatMap StreamOp.written).length : Int) -
        (replies.flatMap Reply.bytes).length ∧
      final.size ≤ final.bufferSize := by
  obtain ⟨final, ran, carries⟩ := cleared.carries.run ops (by
    rw [List.nil_append]
    unfold maxSize
    omega)
  have before := carries.taken_le
  rw [List.nil_append, Nat.zero_add] at carries
  refine ⟨_, final, ran, rfl, replies_balance [] ops, carries.size, carries.pptr, ?_,
    carries.ok.size⟩
  rw [carries.ok.toRead_eq, carries.size, carries.gptr]
  rw [List.nil_append, Nat.zero_add] at before
  exact Int.ofNat_sub before

/-- A buffer that was cleared, with old bytes in its storage. -/
def staleBuffer : Buffer where
  storage := [7, 8]

theorem run_eq_replies_stale :
    ∃ replies final, staleBuffer.run [.write [1, 2], .read 1, .sputc 3, .put 4, .read 9] =
        .ok (replies, final) ∧
      replies = StreamOp.replies [] [.write [1, 2], .read 1, .sputc 3, .put 4, .read 9] ∧
      replies.flatMap Reply.bytes <+: [1, 2, 3, 4] ∧ final.size = 4 ∧ final.pptr = final.size ∧
      final.toRead = (4 : Int) - (replies.flatMap Reply.bytes).length ∧
      final.size ≤ final.bufferSize :=
  run_eq_replies ⟨rfl, rfl, rfl, by decide⟩
    [.write [1, 2], .read 1, .sputc 3, .put 4, .read 9] (by decide)

example : StreamOp.replies [] [.write [1, 2], .read 1, .sputc 3, .put 4, .read 9] =
    [.count 2, .data [1], .char 3, .char 4, .data [2, 3, 4]] := by
  decide

/-- A write that leaves no room for the spare capacity fails. -/
theorem Cleared.xsputn_tooLong (cleared : b.Cleared) {data : Bytes}
    (beyond : b.storage.length < data.length) (large : maxSize < data.length + 1024)
    (small : data.length < 2 ^ 63) : b.xsputn data = .error .lengthError := by
  have modulus : (b.size + data.length) % 2 ^ 64 = data.length := by
    rw [cleared.size]
    omega
  have spare : (data.length + 1024) % 2 ^ 64 = data.length + 1024 := by omega
  rw [xsputn, modulus, setSize, if_pos beyond, spare, if_pos large]
  rfl

/-- Fewer than `2 ^ 63` bytes, but the vector cannot hold them and the spare
capacity. -/
theorem run_lengthError :
    ∃ ops, (ops.flatMap StreamOp.written).length < 2 ^ 63 ∧
      run {} ops = .error .lengthError := by
  have length : (List.replicate (2 ^ 63 - 1) (0 : UInt8)).length = 2 ^ 63 - 1 :=
    List.length_replicate
  generalize List.replicate (2 ^ 63 - 1) (0 : UInt8) = data at length
  have empty : Cleared {} := ⟨rfl, rfl, rfl, Nat.zero_le _⟩
  have failed : xsputn {} data = .error .lengthError :=
    empty.xsputn_tooLong (by rw [length]; decide) (by rw [length]; decide) (by rw [length]; decide)
  refine ⟨[.write data], ?_, ?_⟩
  · rw [List.flatMap_singleton, StreamOp.written, length]
    decide
  · rw [run, perform, failed]
    rfl

end Buffer

end LibTasks.Tools
