import Extlib.Buffer.Atbuf
import Extlib.Memory.Fifo
import Extlib.Machine.Simulation

namespace Extlib
namespace Buffer

open Memory Machine

/-!
# The buffer is a byte queue

The abstract side is a `Fifo` of bytes: a write pushes what it is given, a
read or an advance takes bytes from the front, peeking and tidying change
nothing.  `Implements` relates a buffer to a queue, and every run of the
buffer that no assertion aborts is a run of the queue with the same replies.
-/

/-- A call, with what it is given.  `heap` is what `realloc` answers should
the write have to grow the block. -/
inductive AtbufCall where
  | write (bytes : List UInt8) (heap : Option (Nat -> UInt8))
  | read (len : Nat)
  | peek (len : Nat)
  | readAdvance (len : Nat)
  | tidy
  | fillAdvance (bytes : List UInt8)

/-- What a call tells its caller: the bytes handed out, the number accepted,
or the number still unread. -/
inductive AtbufReply where
  | bytes (handed : List UInt8)
  | accepted (count : Nat)
  | used (count : Nat)
  | done
  deriving DecidableEq, Repr

def atbufStep (buf : Atbuf) : AtbufCall -> Option (Atbuf × AtbufReply)
  | .write bytes heap =>
      (atbufWrite buf bytes heap).map fun (written, count) => (written, .accepted count)
  | .read len => some ((atbufRead buf len).2, .bytes (atbufRead buf len).1)
  | .peek len => some (buf, .bytes (atbufPeek buf len))
  | .readAdvance len =>
      let advanced := atbufReadAdvance buf len
      some (advanced, .used (atbufUsed advanced))
  | .tidy => some (atbufTidy buf, .done)
  | .fillAdvance bytes =>
      (atbufWriteAdvance (atbufFill buf bytes) bytes.length).map fun advanced => (advanced, .done)

def queueStep (queue : Fifo UInt8) : AtbufCall -> Fifo UInt8 × AtbufReply
  | .write bytes _ => (queue.push bytes, .accepted bytes.length)
  | .read len => (queue.skip len, .bytes (queue.contents.take len))
  | .peek len => (queue, .bytes (queue.contents.take len))
  | .readAdvance len => (queue.skip len, .used (queue.contents.drop len).length)
  | .tidy => (queue, .done)
  | .fillAdvance bytes => (queue.push bytes, .done)

/-- The buffer is well formed and its unread bytes are those waiting in the
queue. -/
structure Implements (buf : Atbuf) (queue : Fifo UInt8) : Prop where
  valid : buf.Valid
  unread : buf.unread = queue.contents

/-- One call, one case for each function. -/
theorem atbufStep_simulates : Simulates atbufStep queueStep Implements := by
  intro buf queue call next reply start completes
  cases call with
  | write bytes heap =>
      rcases Option.map_eq_some_iff.mp completes with ⟨⟨written, count⟩, returns, pair⟩
      cases pair
      rcases atbufWrite_spec start.valid bytes heap returns with ⟨valid, unread, whole⟩
      exact ⟨⟨valid, by rw [unread, start.unread, queueStep, Fifo.contents_push]⟩, by rw [whole, queueStep]⟩
  | read len =>
      cases completes
      rcases atbufRead_spec start.valid len with ⟨handed, valid, unread⟩
      refine ⟨⟨valid, ?_⟩, ?_⟩
      · rw [unread, start.unread, queueStep, Fifo.contents_skip]
      · rw [handed, start.unread, queueStep]
  | peek len =>
      cases completes
      exact ⟨start, by rw [atbufPeek_eq, start.unread, queueStep]⟩
  | readAdvance len =>
      cases completes
      rcases atbufReadAdvance_spec start.valid len with ⟨valid, unread, _⟩
      refine ⟨⟨valid, ?_⟩, ?_⟩
      · rw [unread, start.unread, queueStep, Fifo.contents_skip]
      · rw [← valid.length_unread, unread, start.unread, queueStep]
  | tidy =>
      cases completes
      have ordered := start.valid.ordered
      have inside := start.valid.inside
      exact ⟨⟨atbufTidy_valid ordered inside, by rw [atbufTidy_unread ordered inside, start.unread, queueStep]⟩,
        rfl⟩
  | fillAdvance bytes =>
      rcases Option.map_eq_some_iff.mp completes with ⟨advanced, advance, pair⟩
      cases pair
      have room : ¬ atbufSpare buf ≤ bytes.length := by
        intro full
        rw [(atbufFill_writeAdvance_eq_none_iff start.valid bytes).mpr full] at advance
        cases advance
      have inside : buf.offsetIn + bytes.length < atbufSize buf := by
        unfold atbufSpare at room
        omega
      rcases atbufFill_writeAdvance start.valid.ordered bytes inside with ⟨filled, result, valid, joined, _⟩
      rw [result] at advance
      cases advance
      exact ⟨⟨valid, by rw [joined, start.unread, queueStep, Fifo.contents_push]⟩, rfl⟩

/-- Every run of the buffer from `atbuf_new` that no assertion aborts leaves a
well-formed buffer whose unread bytes are those accepted and not yet removed,
and has told its callers what the queue would have told them. -/
theorem atbuf_run_refines_queue (size : Nat) (calls : List AtbufCall) {buf : Atbuf}
    {replies : List AtbufReply}
    (completes : runReplies atbufStep (atbufNew size) calls = some (buf, replies)) :
    (buf.offsetOut ≤ buf.offsetIn ∧ buf.offsetIn < atbufSize buf ∧ buf.rawbuf[buf.offsetIn]? = some 0) ∧
      window buf.rawbuf buf.offsetOut (buf.offsetIn - buf.offsetOut) =
        (runAll queueStep Fifo.empty calls).1.contents ∧
      replies = (runAll queueStep Fifo.empty calls).2 := by
  have start : Implements (atbufNew size) Fifo.empty := ⟨atbufNew_valid size, atbufNew_unread size⟩
  rcases atbufStep_simulates.run start completes with ⟨last, same⟩
  exact ⟨⟨last.valid.ordered, last.valid.inside, last.valid.terminated⟩, last.unread, same⟩

/-- Three bytes in, two out with a compaction, four in with a growth. -/
theorem atbuf_run_refines_queue_grown :
    let buf : Atbuf := ⟨[99, 100, 101, 102, 103, 0, 255, 255], 5, 0⟩
    (0 ≤ 5 ∧ 5 < atbufSize buf ∧ buf.rawbuf[5]? = some 0) ∧
      window buf.rawbuf 0 5 = [99, 100, 101, 102, 103] ∧
      [AtbufReply.accepted 3, .bytes [97, 98], .accepted 4, .bytes [99, 100, 101, 102, 103]] =
        (runAll queueStep Fifo.empty
          [.write [97, 98, 99] none, .read 2, .write [100, 101, 102, 103] (some fun _ => 255), .peek 9]).2 := by
  have completes : runReplies atbufStep (atbufNew 4)
      [.write [97, 98, 99] none, .read 2, .write [100, 101, 102, 103] (some fun _ => 255), .peek 9] =
      some (⟨[99, 100, 101, 102, 103, 0, 255, 255], 5, 0⟩,
        [.accepted 3, .bytes [97, 98], .accepted 4, .bytes [99, 100, 101, 102, 103]]) := by
    decide
  exact atbuf_run_refines_queue 4 _ completes

end Buffer
end Extlib
