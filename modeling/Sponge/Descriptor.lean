import Mathlib.Data.Stream.Defs
import Sponge.Buffer.Model

namespace Sponge

/-- An error number of the kernel. -/
abbrev Errno := Nat

/-- What ends a call that talks to the kernel: an error of the kernel, which `SystemCall`
throws, or what else is thrown. -/
inductive SystemFault where
  | unixError (attempt : String) (errno : Errno)
  | thrown (fault : Fault)
  deriving DecidableEq, Repr

/-- How many bytes the kernel says that it has moved. It moves fewer than 2^31 in one call, so
that the `int` of `SystemCall` holds what the kernel returns as an `ssize_t`. -/
abbrev ByteCount := Fin (2 ^ 31)

/-- The bytes that one call has moved. -/
abbrev Moved := { str : Bytes // str.length < 2 ^ 31 }

/-- A descriptor, which its copies share. The answers that the kernel will give to the calls on
it are a part of it, and so are the strings that the kernel has given and taken. -/
structure FileDescriptor where
  eof : Bool := false
  closed : Bool := false
  readCount : UInt32 := 0
  writeCount : UInt32 := 0
  readAnswers : Stream' (Except Errno Moved)
  writeAnswers : Stream' (Except Errno ByteCount)
  controlAnswers : Stream' (Except Errno Unit)
  got : List Bytes := []
  put : List Bytes := []

/-- `SHUT_RD`, `SHUT_WR` and `SHUT_RDWR`. -/
inductive ShutdownHow where
  | rd
  | wr
  | rdwr
  deriving DecidableEq, Repr

namespace FileDescriptor

/-- The longest read. -/
def BUFFER_SIZE : Nat := 1024 * 1024

def registerRead (f : FileDescriptor) : FileDescriptor := { f with readCount := f.readCount + 1 }

def registerWrite (f : FileDescriptor) : FileDescriptor := { f with writeCount := f.writeCount + 1 }

/-- `read(2)` -/
def sysRead (f : FileDescriptor) : Outcome SystemFault FileDescriptor Bytes :=
  match f.readAnswers.head with
  | .error e => .fail { f with readAnswers := f.readAnswers.tail } (.unixError "read" e)
  | .ok str => .done { f with readAnswers := f.readAnswers.tail, got := f.got ++ [str.1] } str.1

/-- `writev(2)`: the kernel takes as many bytes as it says. -/
def sysWritev (f : FileDescriptor) (str : Bytes) : Outcome SystemFault FileDescriptor Nat :=
  match f.writeAnswers.head with
  | .error e => .fail { f with writeAnswers := f.writeAnswers.tail } (.unixError "writev" e)
  | .ok n =>
    .done { f with writeAnswers := f.writeAnswers.tail, put := f.put ++ [str.take n.val] } n.val

/-- `shutdown(2)`, `close(2)` and `fcntl(2)` -/
def sysControl (f : FileDescriptor) (attempt : String) : Outcome SystemFault FileDescriptor Unit :=
  match f.controlAnswers.head with
  | .error e => .fail { f with controlAnswers := f.controlAnswers.tail } (.unixError attempt e)
  | .ok _ => .done { f with controlAnswers := f.controlAnswers.tail } ()

def read (f : FileDescriptor) (limit : Nat) : Outcome SystemFault FileDescriptor Bytes :=
  let sizeToRead := min BUFFER_SIZE limit
  f.sysRead.andThen fun str f =>
    let f := if limit > 0 ∧ str.length = 0 then { f with eof := true } else f
    if str.length > sizeToRead then
      .fail f (.thrown (.runtimeError "read() read more than requested"))
    else .done f.registerRead str

/-- One turn of the loop in `write`: what is left in view. -/
def writeTurn (f : FileDescriptor) (h : Storage) (buffer : Views) :
    Outcome SystemFault FileDescriptor (Nat × Views) :=
  (f.sysWritev (buffer.contents h).concatenate).andThen fun bytesWritten f =>
    if bytesWritten = 0 ∧ buffer.size ≠ 0 then
      .fail f (.thrown (.runtimeError "write returned 0 given non-empty input buffer"))
    else if bytesWritten > buffer.size then
      .fail f (.thrown (.runtimeError "write wrote more than length of input buffer"))
    else
      let o := buffer.removePrefix bytesWritten
      match o.result with
      | .error e => .fail f.registerWrite (.thrown e)
      | .ok _ => .done f.registerWrite (bytesWritten, o.state.2)

end FileDescriptor

namespace BufferList

/-- The strings of a list as they are stored. -/
def storage (b : BufferList) : Storage := ⟨b.buffers.map fun str => (str, 1)⟩

/-- `BufferViewList(b)`: a view of each of the strings. -/
def views (b : BufferList) : Views := b.buffers.mapIdx fun i str => ⟨some i, 0, str.length⟩

theorem value_storage {b : BufferList} {i : Nat} (h : i < b.buffers.length) :
    b.storage.value? i = some b.buffers[i] := by
  simp [storage, RefHeap.value?, h]

theorem views_fit (b : BufferList) : ∀ v ∈ b.views, v.Fits b.storage := by
  intro v hv
  obtain ⟨i, hi, rfl⟩ := List.mem_mapIdx.mp hv
  exact ⟨b.buffers[i], value_storage hi, by simp⟩

theorem contents_views (b : BufferList) : b.views.contents b.storage = b := by
  have hviews : b.views.map (View.str b.storage) = b.buffers := by
    refine List.ext_getElem (by simp [views]) fun i _ hi => ?_
    simp [views, View.str, value_storage hi]
  rw [Views.contents, hviews]

end BufferList

/-- The number of bytes in view goes down by what is removed. -/
theorem Views.size_removed (buffer : Views) {n : Nat} (h : n ≤ buffer.size) :
    ∃ rest, buffer.removePrefix n = .done ((), rest) () ∧ rest.size + n = buffer.size := by
  -- only the lengths matter: each view is read as a string of that many units
  have hs : Pieces.Sound (fun (_ : Unit) (v : View) => v.length)
      (fun _ v n => (.done ((), v.removePrefix n) () : Outcome Fault (Unit × View) Unit))
      (fun _ _ => ()) (fun _ v => List.replicate v.length ()) (fun _ _ => True) :=
    ⟨fun _ _ _ _ => List.length_replicate.symm,
      fun _ v _ n _ _ => ⟨(), _, rfl, trivial, by simp [View.removePrefix], fun _ _ => rfl⟩,
      fun _ _ _ _ => ⟨trivial, fun _ _ => rfl⟩⟩
  have hlen : ∀ vs : Views, (vs.flatMap fun v => List.replicate v.length ()).length = vs.size := by
    intro vs
    simp [List.length_flatMap, Views.size]
  have hcases : (_ ∧ ∃ s' rest, buffer.removePrefix n = .done (s', rest) () ∧ _ ∧ _) ∨ _ :=
    hs.remove_front trivial n
  rcases hcases with ⟨-, s', rest, hrun, -, htext⟩ | ⟨hlt, -⟩
  · refine ⟨rest, hrun, ?_⟩
    have hrest := congrArg List.length htext
    rw [List.length_drop, hlen, hlen] at hrest
    omega
  · rw [hlen] at hlt
    omega

namespace FileDescriptor

/-- What the calls of a descriptor throw. -/
def Throws (e : SystemFault) : Prop :=
  (∃ attempt errno, e = .unixError attempt errno) ∨
  e = .thrown (.runtimeError "read() read more than requested") ∨
  e = .thrown (.runtimeError "write returned 0 given non-empty input buffer") ∨
  e = .thrown (.runtimeError "write wrote more than length of input buffer")

/-- Reading leaves the rest of the descriptor as it was. -/
def OnlyRead (f f' : FileDescriptor) : Prop :=
  f' = { f with
    eof := f'.eof
    readAnswers := f'.readAnswers
    readCount := f'.readCount
    got := f'.got }

theorem OnlyRead.put_eq {f f' : FileDescriptor} (h : OnlyRead f f') : f'.put = f.put := by
  rw [h]

/-- All that a read can do. -/
theorem read_cases (f : FileDescriptor) (limit : Nat) :
    (∃ f' e, f.read limit = .fail f' e ∧ Throws e ∧ OnlyRead f f' ∧
      ∃ new, f'.got = f.got ++ new) ∨
    ∃ f' str, f.read limit = .done f' str ∧ OnlyRead f f' ∧ str.length ≤ limit ∧
      f'.got = f.got ++ [str] ∧ f'.readCount = f.readCount + 1 ∧
      f'.eof = (f.eof || (limit > 0 && str.length = 0)) := by
  unfold read sysRead
  cases f.readAnswers.head with
  | error e => exact .inl ⟨_, _, rfl, .inl ⟨_, _, rfl⟩, rfl, [], (List.append_nil _).symm⟩
  | ok moved =>
    obtain ⟨str, -⟩ := moved
    simp only [Outcome.andThen, Outcome.done]
    by_cases hend : limit > 0 ∧ str.length = 0
    · simp only [if_pos hend]
      split
      · exact .inl ⟨_, _, rfl, .inr (.inl rfl), rfl, [str], rfl⟩
      · rename_i hle
        exact .inr ⟨_, str, rfl, rfl, by omega, rfl, rfl, by simp [registerRead, hend]⟩
    · simp only [if_neg hend]
      split
      · exact .inl ⟨_, _, rfl, .inr (.inl rfl), rfl, [str], rfl⟩
      · rename_i hle
        have hmore : (decide (limit > 0) && decide (str.length = 0)) = false := by simpa using hend
        refine .inr ⟨_, str, rfl, rfl, by omega, rfl, rfl, ?_⟩
        rw [hmore, Bool.or_false]
        rfl

/-- Writing leaves the rest of the descriptor as it was. -/
def OnlyWritten (f f' : FileDescriptor) : Prop :=
  f' = { f with
    writeAnswers := f'.writeAnswers
    writeCount := f'.writeCount
    put := f'.put }

theorem OnlyWritten.trans {f f' f'' : FileDescriptor} (h : OnlyWritten f f')
    (h' : OnlyWritten f' f'') : OnlyWritten f f'' := by
  calc f'' = _ := h'
    _ = _ := by rw [h]

theorem OnlyWritten.got_eq {f f' : FileDescriptor} (h : OnlyWritten f f') : f'.got = f.got := by
  rw [h]

theorem OnlyWritten.eof_eq {f f' : FileDescriptor} (h : OnlyWritten f f') : f'.eof = f.eof := by
  rw [h]

theorem OnlyWritten.closed_eq {f f' : FileDescriptor} (h : OnlyWritten f f') :
    f'.closed = f.closed := by
  rw [h]

theorem OnlyWritten.read_count_eq {f f' : FileDescriptor} (h : OnlyWritten f f') :
    f'.readCount = f.readCount := by
  rw [h]

/-- All that one turn can do: it throws, with the bytes the kernel took, or it goes on with
the rest. -/
theorem write_turn_cases (f : FileDescriptor) (h : Storage) (buffer : Views) :
    (∃ f' e, f.writeTurn h buffer = .fail f' e ∧ Throws e ∧ OnlyWritten f f' ∧
      (f'.put = f.put ∨ ∃ n, f'.put = f.put ++ [(buffer.contents h).concatenate.take n])) ∨
    ∃ f' n rest, f.writeTurn h buffer = .done f' (n, rest) ∧ OnlyWritten f f' ∧
      buffer.removePrefix n = .done ((), rest) () ∧ n ≤ buffer.size ∧
      (n = 0 → buffer.size = 0) ∧ rest.size + n = buffer.size ∧
      f'.put = f.put ++ [(buffer.contents h).concatenate.take n] ∧
      f'.writeCount = f.writeCount + 1 := by
  unfold writeTurn sysWritev
  cases f.writeAnswers.head with
  | error e => exact .inl ⟨_, _, rfl, .inl ⟨_, _, rfl⟩, rfl, .inl rfl⟩
  | ok count =>
    obtain ⟨n, -⟩ := count
    simp only [Outcome.andThen, Outcome.done]
    split
    · exact .inl ⟨_, _, rfl, .inr (.inr (.inl rfl)), rfl, .inr ⟨n, rfl⟩⟩
    rename_i hzero
    split
    · exact .inl ⟨_, _, rfl, .inr (.inr (.inr rfl)), rfl, .inr ⟨n, rfl⟩⟩
    rename_i hle
    have hle : n ≤ buffer.size := Nat.not_lt.mp hle
    obtain ⟨rest, hrun, hsize⟩ := buffer.size_removed hle
    rw [hrun]
    refine .inr ⟨_, n, rest, rfl, rfl, hrun, hle, fun h0 => ?_, hsize, rfl, rfl⟩
    by_contra hne
    exact hzero ⟨h0, hne⟩

/-- `do … while (write_all and buffer.size())` -/
def writeLoop (f : FileDescriptor) (h : Storage) (writeAll : Bool) (buffer : Views)
    (totalBytesWritten : Nat) : Outcome SystemFault FileDescriptor Nat :=
  match _hturn : f.writeTurn h buffer with
  | ⟨.error e, f⟩ => .fail f e
  | ⟨.ok (bytesWritten, rest), f⟩ =>
    if _hmore : writeAll = true ∧ rest.size ≠ 0 then
      writeLoop f h writeAll rest (totalBytesWritten + bytesWritten)
    else .done f (totalBytesWritten + bytesWritten)
termination_by buffer.size
decreasing_by
  rcases write_turn_cases _ h buffer with
    ⟨f', e, heq, -⟩ | ⟨f', n, rest', heq, -, -, -, hz, hsum, -⟩
  · rw [heq] at _hturn
    cases _hturn
  · rw [heq] at _hturn
    cases _hturn
    omega

/-- Write what is in view, possibly until all is written. -/
def write (f : FileDescriptor) (h : Storage) (buffer : Views) (writeAll : Bool) :
    Outcome SystemFault FileDescriptor Nat :=
  f.writeLoop h writeAll buffer 0

/-- What a call of `write` comes to when `total` bytes were written before: the kernel takes
`chunks`, one after the other, of the bytes in view, and a call that returns says how many bytes
that makes. -/
structure Written (contents : Bytes) (writeAll : Bool) (total : Nat) (f : FileDescriptor)
    (o : Outcome SystemFault FileDescriptor Nat) (chunks : List Bytes) : Prop where
  put : o.state.put = f.put ++ chunks
  inOrder : chunks.flatten <+: contents
  bounded : chunks.length ≤ max 1 contents.length
  counted : ∀ t, o.result = .ok t → t = total + chunks.flatten.length
  whole : ∀ t, o.result = .ok t → writeAll = true → chunks.flatten = contents
  once : writeAll = false → chunks.length ≤ 1
  registered : ∀ t, o.result = .ok t →
    0 < chunks.length ∧ o.state.writeCount = f.writeCount + UInt32.ofNat chunks.length
  others : OnlyWritten f o.state
  throws : ∀ e, o.result = .error e → Throws e

/-- A turn that does not throw takes bytes off the front. -/
theorem write_turn_done {f f' : FileDescriptor} {h : Storage} {buffer rest : Views} {n : Nat}
    (hf : ∀ v ∈ buffer, v.Fits h) (hturn : f.writeTurn h buffer = .done f' (n, rest)) :
    (∀ v ∈ rest, v.Fits h) ∧ n ≤ (buffer.contents h).concatenate.length ∧
      (n = 0 → (buffer.contents h).concatenate = []) ∧
      (rest.contents h).concatenate = (buffer.contents h).concatenate.drop n ∧
      f'.put = f.put ++ [(buffer.contents h).concatenate.take n] ∧
      f'.writeCount = f.writeCount + 1 ∧ OnlyWritten f f' := by
  have hsize := Views.length_concatenate hf
  rcases f.write_turn_cases h buffer with
    ⟨g, d, heq, -⟩ | ⟨g, m, rest', heq, hother, hrun, hle, hz, -, hput, hcount⟩
  · rw [hturn] at heq
    cases heq
  · rw [hturn] at heq
    cases heq
    rcases Views.remove_prefix_cases hf n with ⟨-, views', hrun', hf', hdrop⟩ | ⟨hlt, -⟩
    · rw [hrun] at hrun'
      cases hrun'
      exact ⟨hf', hsize ▸ hle, fun h0 => List.length_eq_zero_iff.mp (hsize ▸ hz h0), hdrop, hput,
        hcount, hother⟩
    · omega

theorem write_loop_written (f : FileDescriptor) (h : Storage) (writeAll : Bool) (buffer : Views)
    (total : Nat) (hf : ∀ v ∈ buffer, v.Fits h) :
    ∃ chunks, Written (buffer.contents h).concatenate writeAll total f
      (f.writeLoop h writeAll buffer total) chunks := by
  fun_induction writeLoop f h writeAll buffer total with
  | case1 f buffer total e f' hturn =>
    rcases f.write_turn_cases h buffer with
      ⟨g, d, heq, hthrows, hother, hput⟩ | ⟨g, n, rest, heq, -⟩
    · rw [hturn] at heq
      cases heq
      have hthrown : ∀ d, (Outcome.fail f' e : Outcome SystemFault FileDescriptor Nat).result =
          .error d → Throws d := by
        rintro d ⟨⟩
        exact hthrows
      rcases hput with hput | ⟨n, hput⟩
      · exact ⟨[], ⟨by simp [hput], List.nil_prefix, Nat.zero_le _, nofun, nofun, by simp, nofun,
          hother, hthrown⟩⟩
      · exact ⟨_, ⟨hput, by simpa using List.take_prefix _ _, Nat.le_max_left .., nofun, nofun,
          by simp, nofun, hother, hthrown⟩⟩
    · rw [hturn] at heq
      cases heq
  | case2 f buffer total n rest f' hturn hmore ih =>
    obtain ⟨hf', hle, hz, hdrop, hput, hcount, hother⟩ := write_turn_done hf hturn
    obtain ⟨chunks, hw⟩ := ih hf'
    have hin := hw.inOrder
    have hbound := hw.bounded
    rw [hdrop] at hin hbound
    refine ⟨(buffer.contents h).concatenate.take n :: chunks, ⟨?_, ?_, ?_, ?_, ?_, ?_, ?_,
      hother.trans hw.others, hw.throws⟩⟩
    · rw [hw.put, hput, List.append_assoc, List.singleton_append]
    · rw [List.flatten_cons]
      have hfront := (List.prefix_append_right_inj ((buffer.contents h).concatenate.take n)).mpr hin
      rwa [List.take_append_drop] at hfront
    · -- something is left, and something was written
      have hleft := Views.length_concatenate hf'
      rw [hdrop, List.length_drop] at hleft
      have hpos : n ≠ 0 := by
        intro h0
        rw [hz h0] at hleft
        simp only [List.length_nil] at hleft
        omega
      rw [List.length_drop] at hbound
      rw [List.length_cons]
      omega
    · intro t ht
      rw [hw.counted t ht, List.flatten_cons, List.length_append, List.length_take]
      omega
    · intro t ht hall
      rw [List.flatten_cons, hw.whole t ht hall, hdrop, List.take_append_drop]
    · intro hno
      rw [hno] at hmore
      cases hmore.1
    · intro t ht
      refine ⟨Nat.succ_pos _, ?_⟩
      rw [(hw.registered t ht).2, hcount, List.length_cons, UInt32.ofNat_add]
      ac_rfl
  | case3 f buffer total n rest f' hturn hmore =>
    obtain ⟨hf', hle, hz, hdrop, hput, hcount, hother⟩ := write_turn_done hf hturn
    have hleft := Views.length_concatenate hf'
    refine ⟨[(buffer.contents h).concatenate.take n], ⟨hput, ?_, Nat.le_max_left .., ?_, ?_,
      fun _ => Nat.le_refl 1, fun _ _ => ⟨Nat.one_pos, hcount⟩, hother, nofun⟩⟩
    · simpa using List.take_prefix _ _
    · intro t ht
      cases ht
      simp [Nat.min_eq_left hle]
    · intro t _ hall
      have hnone : rest.size = 0 := by
        by_contra hne
        exact hmore ⟨hall, hne⟩
      rw [hnone, hdrop, List.length_drop] at hleft
      simp only [List.flatten_cons, List.flatten_nil, List.append_nil]
      exact List.take_of_length_le (by omega)

/-- Whatever the kernel answers, what it takes is the beginning of what is in view, byte by byte;
a call that returns says how much that was, and with `write_all` it was everything. -/
theorem write_exact (f : FileDescriptor) (h : Storage) (buffer : Views) (writeAll : Bool)
    (hf : ∀ v ∈ buffer, v.Fits h) :
    ∃ chunks, Written (buffer.contents h).concatenate writeAll 0 f (f.write h buffer writeAll)
      chunks :=
  f.write_loop_written h writeAll buffer 0 hf

/-- Two views of one string, written by a kernel that takes a byte at a time. -/
theorem write_exact_two :
    let f : FileDescriptor :=
      { readAnswers := .const (.ok ⟨[], by decide⟩), writeAnswers := .const (.ok 1),
        controlAnswers := .const (.ok ()) }
    let h : Storage := ({} : Storage).alloc [1, 2, 3, 4]
    let buffer : Views := [⟨some 0, 1, 3⟩, ⟨some 0, 0, 2⟩]
    ∃ chunks, Written [2, 3, 4, 1, 2] true 0 f (f.write h buffer true) chunks := by
  intro f h buffer
  refine write_exact f h buffer true fun v hv => ?_
  simp only [buffer, List.mem_cons, List.not_mem_nil, or_false] at hv
  rcases hv with rfl | rfl
  · exact ⟨[1, 2, 3, 4], rfl, by decide⟩
  · exact ⟨[1, 2, 3, 4], rfl, by decide⟩

/-- Writing a string or a list of buffers. -/
def writeList (f : FileDescriptor) (b : BufferList) (writeAll : Bool) :
    Outcome SystemFault FileDescriptor Nat :=
  f.write b.storage b.views writeAll

theorem write_list_written (f : FileDescriptor) (b : BufferList) (writeAll : Bool) :
    ∃ chunks, Written b.concatenate writeAll 0 f (f.writeList b writeAll) chunks := by
  have hw := f.write_loop_written b.storage writeAll b.views 0 b.views_fit
  rwa [b.contents_views] at hw

/-- A call that is to write once has done so. -/
theorem Written.counted_once {contents : Bytes} {total t : Nat} {f : FileDescriptor}
    {o : Outcome SystemFault FileDescriptor Nat} {chunks : List Bytes}
    (h : Written contents false total f o chunks) (ht : o.result = .ok t) :
    o.state.writeCount = f.writeCount + 1 := by
  obtain ⟨hpos, hcount⟩ := h.registered t ht
  have hone : chunks.length = 1 := by
    have := h.once rfl
    omega
  rw [hcount, hone]
  rfl

/-- The counts go round, but one more is another number. -/
theorem count_succ_ne (n : UInt32) : n + 1 ≠ n := by
  intro h
  simp at h

theorem count_succ_succ_ne (n : UInt32) : n + 1 + 1 ≠ n := by
  intro h
  simp only [UInt32.add_assoc] at h
  simp at h

def setBlocking (f : FileDescriptor) : Outcome SystemFault FileDescriptor Unit :=
  (f.sysControl "fcntl").andThen fun _ f => f.sysControl "fcntl"

def close (f : FileDescriptor) : Outcome SystemFault FileDescriptor Unit :=
  (f.sysControl "close").andThen fun _ f => .done { f with eof := true, closed := true } ()

/-- `Socket::shutdown` -/
def shutdown (f : FileDescriptor) (how : ShutdownHow) : Outcome SystemFault FileDescriptor Unit :=
  (f.sysControl "shutdown").andThen fun _ f =>
    match how with
    | .rd => .done f.registerRead ()
    | .wr => .done f.registerWrite ()
    | .rdwr => .done f.registerRead.registerWrite ()

theorem sys_control_cases (f : FileDescriptor) (attempt : String) :
    (∃ f' errno, f.sysControl attempt = .fail f' (.unixError attempt errno) ∧
      f' = { f with controlAnswers := f'.controlAnswers }) ∨
    ∃ f', f.sysControl attempt = .done f' () ∧
      f' = { f with controlAnswers := f'.controlAnswers } := by
  unfold sysControl
  cases f.controlAnswers.head with
  | error e => exact .inl ⟨_, e, rfl, rfl⟩
  | ok _ => exact .inr ⟨_, rfl, rfl⟩

theorem set_blocking_leaves (f : FileDescriptor) :
    f.setBlocking.Leaves (fun _ f' => f' = { f with controlAnswers := f'.controlAnswers })
      (fun e f' => Throws e ∧ f' = { f with controlAnswers := f'.controlAnswers }) := by
  unfold setBlocking
  rcases f.sys_control_cases "fcntl" with ⟨f', errno, hrun, hf'⟩ | ⟨f', hrun, hf'⟩
  · rw [hrun]
    exact Outcome.leaves_fail ⟨.inl ⟨_, _, rfl⟩, hf'⟩
  · rw [hrun, Outcome.and_then_ok rfl, Outcome.state_done]
    rcases f'.sys_control_cases "fcntl" with ⟨f'', errno, hrun, hf''⟩ | ⟨f'', hrun, hf''⟩
    · rw [hrun]
      exact Outcome.leaves_fail ⟨.inl ⟨_, _, rfl⟩, by rw [hf'', hf']⟩
    · rw [hrun]
      exact Outcome.leaves_done (by rw [hf'', hf'])

theorem close_cases (f : FileDescriptor) :
    (∃ f' errno, f.close = .fail f' (.unixError "close" errno) ∧
      f' = { f with controlAnswers := f'.controlAnswers }) ∨
    ∃ f', f.close = .done f' () ∧
      f' = { f with controlAnswers := f'.controlAnswers, eof := true, closed := true } := by
  unfold close
  rcases f.sys_control_cases "close" with ⟨f', errno, hrun, hf'⟩ | ⟨f', hrun, hf'⟩
  · rw [hrun]
    exact .inl ⟨f', errno, rfl, hf'⟩
  · rw [hrun, hf']
    exact .inr ⟨_, rfl, rfl⟩

/-- Shutting down the writing side counts as writing. -/
theorem shutdown_wr_cases (f : FileDescriptor) :
    (∃ f' errno, f.shutdown .wr = .fail f' (.unixError "shutdown" errno) ∧
      f' = { f with controlAnswers := f'.controlAnswers }) ∨
    ∃ f', f.shutdown .wr = .done f' () ∧
      f' = { f with controlAnswers := f'.controlAnswers, writeCount := f.writeCount + 1 } := by
  unfold shutdown
  rcases f.sys_control_cases "shutdown" with ⟨f', errno, hrun, hf'⟩ | ⟨f', hrun, hf'⟩
  · rw [hrun]
    exact .inl ⟨f', errno, rfl, hf'⟩
  · rw [hrun, hf']
    exact .inr ⟨_, rfl, rfl⟩

end FileDescriptor

end Sponge
