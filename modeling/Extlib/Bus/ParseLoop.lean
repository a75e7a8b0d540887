import Extlib.Bus.Parse
import Extlib.Srrp.Grammar

namespace Extlib
namespace Bus

open Text Buffer Srrp Machine World

/-!
# The loop of `parse_packet`

The model bounds the rounds by the number of unread bytes.  The loop of the
source has no bound; it ends because an accepted packet is never empty, also
in the sixteen bits that `pac->len` has, whatever the bytes are that it was
read from.
-/

/-- The parser takes some packets from the front. -/
def Takes (host : Host) : World × SinkFd -> World × SinkFd -> Prop :=
  Relation.ReflTransGen fun before after => parseRound host before = .again after

/-- The copies of the reader stay in range wherever the parser comes to read. -/
def ReadsInRange (host : Host) (start : World × SinkFd) : Prop :=
  ∀ reached, Takes host start reached -> CopiesInRange (CString.ofMemory (atbufReadPos reached.2.rxbuf))

/-- The packet is the newest entry of one list, and everything else is as it
was. -/
def EnqueuedOnce (before : Apibus) (pac : SrrpPacket) (after : Apibus) : Prop :=
  (∃ req : ApiRequest, req.pac = pac ∧ after = { before with requests := req :: before.requests }) ∨
  (∃ resp : ApiResponse, resp.pac = pac ∧ after = { before with responses := resp :: before.responses }) ∨
  ∃ tmsg : ApiTopicMsg, tmsg.pac = pac ∧ after = { before with topicMsgs := tmsg :: before.topicMsgs }

section Rounds

variable {host : Host}

/-- A packet with one of the five leaders is put on one list. -/
theorem enqueue_once (host : Host) (world : World) (fd : Fd) {pac : SrrpPacket}
    (listed : pac.leader ∈ packetLeaders) : EnqueuedOnce world.bus pac (enqueue host world fd pac).bus := by
  unfold enqueue
  split
  · exact Or.inl ⟨newRequest host world fd pac, rfl, rfl⟩
  case isFalse notRequest =>
    split
    · exact Or.inr (Or.inl ⟨⟨pac, fd, world.nodes⟩, rfl, rfl⟩)
    case isFalse notResponse =>
      split
      · exact Or.inr (Or.inr ⟨⟨pac, fd, world.nodes⟩, rfl, rfl⟩)
      case isFalse notTopic =>
        simp only [packetLeaders, List.mem_cons, List.not_mem_nil, or_false] at listed
        exact absurd ((listed.resolve_left notRequest).resolve_left notResponse) notTopic

/-- What a round does that goes on. -/
theorem parseRound_again {before after : World × SinkFd} (valid : before.2.rxbuf.Valid)
    (small : atbufSize before.2.rxbuf < 2 ^ 31) (taken : parseRound host before = .again after) :
    after.2.rxbuf.unread.length < before.2.rxbuf.unread.length ∧
      ∃ pac, srrpReadOnePacket (host.behindBuffer before.1.nodes) (atbufReadPos before.2.rxbuf) = .packet pac ∧
        0 < pac.len.toNat ∧ EnqueuedOnce before.1.bus pac after.1.bus := by
  rcases before with ⟨world, sinkfd⟩
  rcases parseRound_cases host world sinkfd with ⟨_, round⟩ | ⟨_, round⟩ | round | round | ⟨pac, used, accepted, round⟩
  · cases taken.symm.trans round
  · cases taken.symm.trans round
  · cases taken.symm.trans round
  · cases taken.symm.trans round
  · cases taken.symm.trans round
    rcases valid.readPos with ⟨behind, place⟩
    have short : (atbufReadPos sinkfd.rxbuf).length < 2 ^ 31 := by
      rw [atbufReadPos, List.length_drop]
      exact Nat.lt_of_le_of_lt (Nat.sub_le _ _) small
    have pos := accepted_pos (by rw [place]; simp) short accepted
    refine ⟨?_, pac, accepted, pos, enqueue_once host world sinkfd.fd (accepted_leader accepted).2⟩
    rw [← valid.length_unread] at used
    rw [(atbufReadAdvance_spec valid _).2.1, List.length_drop]
    omega

/-- A round that leaves the loop puts nothing on a list. -/
theorem parseRound_done {before last : World × SinkFd} (left : parseRound host before = .done last) :
    last.1.bus = before.1.bus := by
  rcases before with ⟨world, sinkfd⟩
  rcases parseRound_cases host world sinkfd with ⟨_, round⟩ | ⟨_, round⟩ | round | round | ⟨_, _, _, round⟩
  · cases left.symm.trans round
    rfl
  · cases left.symm.trans round
    rfl
  · cases left.symm.trans round
    rfl
  · cases left.symm.trans round
    rcases resync_cases world.tick sinkfd with ⟨count, given⟩ | given
    · rw [given]
      rfl
    · rw [given]
      rfl
  · cases left.symm.trans round

/-- A round takes bytes from the front only. -/
theorem parseRound_suffix (host : Host) (state : World × SinkFd) (valid : state.2.rxbuf.Valid) :
    (parseRound host state).state.2.rxbuf.unread <:+ state.2.rxbuf.unread := by
  rcases state with ⟨world, sinkfd⟩
  have skipped : ∀ count, (atbufReadAdvance sinkfd.rxbuf count).unread <:+ sinkfd.rxbuf.unread := by
    intro count
    rw [(atbufReadAdvance_spec valid count).2.1]
    exact List.drop_suffix _ _
  rcases parseRound_cases host world sinkfd with ⟨_, round⟩ | ⟨_, round⟩ | round | round | ⟨_, _, _, round⟩
  · rw [round]
    exact List.suffix_refl _
  · rw [round]
    exact List.suffix_refl _
  · rw [round]
    exact List.suffix_refl _
  · rw [round, resync_eq world.tick valid]
    exact skipped _
  · rw [round]
    exact skipped _

/-- A read whose copies stay in range does not overflow the header. -/
theorem not_overflow_of_inRange {memory : List UInt8} (terminated : (0 : UInt8) ∈ memory)
    (inRange : CopiesInRange (CString.ofMemory memory)) (beyond : Nat -> UInt8) :
    srrpReadOnePacket beyond memory ≠ .overflow := by
  intro overflows
  rcases CString.ofMemory_split terminated with ⟨rest, split⟩
  have reads := srrpReadOnePacket_terminated beyond beyond (CString.ofMemory memory) rest
  rw [← split] at reads
  cases stored : srrpReadOnePacket beyond (CString.ofMemory memory).stored with
  | null =>
      rw [stored] at reads
      cases overflows.symm.trans reads
  | overflow => exact inRange.returns beyond stored
  | packet pac =>
      rw [stored] at reads
      rcases reads with ⟨_, accepted⟩
      cases overflows.symm.trans accepted

/-- Where the copies stay in range no round stops the bus. -/
theorem parseRound_stopped (host : Host) (state : World × SinkFd) (valid : state.2.rxbuf.Valid)
    (inRange : CopiesInRange (CString.ofMemory (atbufReadPos state.2.rxbuf))) :
    (parseRound host state).state.1.stopped = state.1.stopped := by
  rcases state with ⟨world, sinkfd⟩
  rcases parseRound_cases host world sinkfd with ⟨_, round⟩ | ⟨overflows, _⟩ | round | round | ⟨pac, _, _, round⟩
  · rw [round]
    rfl
  · have terminated : (0 : UInt8) ∈ atbufReadPos sinkfd.rxbuf := by
      rcases valid.readPos with ⟨behind, place⟩
      rw [place]
      exact List.mem_append_right _ List.mem_cons_self
    exact absurd overflows (not_overflow_of_inRange terminated inRange _)
  · rw [round]
    rfl
  · rw [round, resync_eq world.tick valid]
    rfl
  · rw [round]
    exact (enqueue_enqueued host world sinkfd.fd pac).stopped

end Rounds

/-! ## Whole parses -/

section Parses

variable {host : Host}

/-- The rounds the model allows are enough for the loop to end. -/
theorem parseRounds_ends (rounds : Nat) (state : World × SinkFd) (valid : state.2.rxbuf.Valid)
    (small : atbufSize state.2.rxbuf < 2 ^ 31) (fits : state.2.rxbuf.unread.length ≤ rounds) :
    Ends (parseRound host) state (repeatUpTo (parseRound host) rounds state) := by
  refine repeatUpTo_ends (fun state : World × SinkFd => state.2.rxbuf.Valid ∧ atbufSize state.2.rxbuf < 2 ^ 31)
    (fun state => state.2.rxbuf.unread.length) ?_ ?_ rounds state ⟨valid, small⟩ fits
  · rintro state next ⟨stillValid, stillSmall⟩ taken
    have kept := parseRound_keeps host state stillValid
    rw [taken] at kept
    exact ⟨⟨kept.1, kept.2.1.symm ▸ stillSmall⟩, (parseRound_again stillValid stillSmall taken).1⟩
  · rintro state ⟨stillValid, _⟩ none
    exact parseRound_empty stillValid (List.eq_nil_of_length_eq_zero none)

theorem parsePacket_ends (world : World) {sinkfd : SinkFd} (valid : sinkfd.rxbuf.Valid)
    (small : atbufSize sinkfd.rxbuf < 2 ^ 31) :
    Ends (parseRound host) (world, sinkfd) (parsePacket host world sinkfd) :=
  parseRounds_ends _ (world, sinkfd) valid small (Nat.le_of_eq valid.length_unread)

/-- What the rounds keep that the parser has gone through. -/
theorem Takes.kept {start reached : World × SinkFd} (taken : Takes host start reached)
    (valid : start.2.rxbuf.Valid) :
    reached.2.rxbuf.Valid ∧ atbufSize reached.2.rxbuf = atbufSize start.2.rxbuf ∧
      reached.2.tsPollRecv = start.2.tsPollRecv := by
  refine steps_invariant (fun state : World × SinkFd => state.2.rxbuf.Valid ∧
    atbufSize state.2.rxbuf = atbufSize start.2.rxbuf ∧ state.2.tsPollRecv = start.2.tsPollRecv) ?_ taken
    ⟨valid, rfl, rfl⟩
  rintro before after round ⟨stillValid, size, stamp⟩
  have kept := parseRound_keeps host before stillValid
  rw [round] at kept
  exact ⟨kept.1, kept.2.1.trans size, kept.2.2.trans stamp⟩

/-- The unread bytes that are left lie at the end of those there were. -/
theorem parsePacket_suffix (host : Host) (world : World) {sinkfd : SinkFd} (valid : sinkfd.rxbuf.Valid) :
    (parsePacket host world sinkfd).2.rxbuf.unread <:+ sinkfd.rxbuf.unread := by
  have kept : (parsePacket host world sinkfd).2.rxbuf.Valid ∧
      (parsePacket host world sinkfd).2.rxbuf.unread <:+ sinkfd.rxbuf.unread := by
    refine repeatUpTo_invariant (fun state : World × SinkFd =>
      state.2.rxbuf.Valid ∧ state.2.rxbuf.unread <:+ sinkfd.rxbuf.unread) ?_ _ _ ⟨valid, List.suffix_refl _⟩
    rintro state ⟨stillValid, suffix⟩
    exact ⟨(parseRound_keeps host state stillValid).1, (parseRound_suffix host state stillValid).trans suffix⟩
  exact kept.2

/-- A parse that ends has stopped the bus in none of its rounds, if all of them
read in range. -/
theorem parse_stopped {start last : World × SinkFd} (ends : Ends (parseRound host) start last)
    (valid : start.2.rxbuf.Valid) (inRange : ReadsInRange host start) : last.1.stopped = start.1.stopped := by
  induction ends with
  | @done state last outcome =>
      have kept := parseRound_stopped host state valid (inRange state .refl)
      rw [outcome] at kept
      exact kept
  | @again state next last outcome _ inductionHypothesis =>
      have kept := parseRound_stopped host state valid (inRange state .refl)
      have stillValid := (parseRound_keeps host state valid).1
      rw [outcome] at kept stillValid
      refine (inductionHypothesis stillValid fun reached taken => ?_).trans kept
      exact inRange reached (.head outcome taken)

end Parses

/-- The loop ends on any bytes.  Every round that goes on has consumed some of
them and has put its packet, once, on one list; the round that leaves the loop
puts none there. -/
theorem parsePacket_terminates (host : Host) (world : World) {sinkfd : SinkFd} (valid : sinkfd.rxbuf.Valid)
    (small : atbufSize sinkfd.rxbuf < 2 ^ 31) :
    Ends (parseRound host) (world, sinkfd) (parsePacket host world sinkfd) ∧
      (parsePacket host world sinkfd).2.rxbuf.unread <:+ sinkfd.rxbuf.unread ∧
      (∀ before after, Takes host (world, sinkfd) before -> parseRound host before = .again after ->
        after.2.rxbuf.unread.length < before.2.rxbuf.unread.length ∧
          ∃ pac, srrpReadOnePacket (host.behindBuffer before.1.nodes) (atbufReadPos before.2.rxbuf) = .packet pac ∧
            0 < pac.len.toNat ∧ EnqueuedOnce before.1.bus pac after.1.bus) ∧
      (∀ before last, Takes host (world, sinkfd) before -> parseRound host before = .done last ->
        last.1.bus = before.1.bus) ∧
      (ReadsInRange host (world, sinkfd) -> (parsePacket host world sinkfd).1.stopped = world.stopped) := by
  have ends : Ends (parseRound host) (world, sinkfd) (parsePacket host world sinkfd) :=
    parsePacket_ends world valid small
  refine ⟨ends, parsePacket_suffix host world valid, ?_, ?_, ?_⟩
  · intro before after taken round
    have kept := taken.kept valid
    exact parseRound_again kept.1 (kept.2.1.symm ▸ small) round
  · exact fun before last _ left => parseRound_done left
  · exact fun inRange => parse_stopped ends valid inRange

/-- A sinkfd that has received a subscription and its NUL. -/
private def subscribing : SinkFd where
  fd := ⟨4, 0⟩
  listen := false
  rxbuf := ⟨ascii "#0,$,0010:/a?\x7b\x7d" ++ [0, 0], 16, 0⟩
  tsPollRecv := 0
  sink := .unix

theorem parsePacket_terminates_subscription :
    Ends (parseRound (Host.still 0)) (apibusNew, subscribing)
      (parsePacket (Host.still 0) apibusNew subscribing) :=
  (parsePacket_terminates (Host.still 0) apibusNew ⟨by decide, by decide, by decide⟩ (by decide)).1

end Bus
end Extlib
