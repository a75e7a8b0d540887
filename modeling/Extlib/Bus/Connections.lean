import Extlib.Bus.Steps

namespace Extlib
namespace Bus

open Text Srrp Machine World

/-!
# Entries and the connections they were made on

Stations, topics, requests and topic packets hold a descriptor number, and a
closed number may be handed out again while an entry still holds it.  As long
as that does not happen, a number found among the sinkfds stands for the
connection it stood for when the entry was made, and everything sent for an
entry goes to that connection while it is open.
-/

/-- Whether an event that follows `earlier` sends to the connection its call
is for, and that one is still open. -/
def SentRight (earlier : List Event) : Event -> Prop
  | .send call (some sentTo) =>
      sentTo.conn = call.fd.conn ∧ ∀ fd, .closed fd ∈ earlier -> fd.conn ≠ call.fd.conn
  | _ => True

def SendsRight (trace : List Event) : Prop :=
  ∀ earlier event later, trace = earlier ++ event :: later -> SentRight earlier event

/-- The descriptors in the entries of the bus. -/
def Recorded (world : World) (fd : Fd) : Prop :=
  (∃ station ∈ world.bus.stations, station.fd = fd) ∨
    (∃ topic ∈ world.bus.topics, fd ∈ topic.fds) ∨
    (∃ req ∈ world.bus.requests, req.fd = fd) ∨
    ∃ tmsg ∈ world.bus.topicMsgs, tmsg.fd = fd

/-- The descriptors of the sinkfds. -/
def sinkFds (world : World) : List Fd := world.bus.sinkfds.map (·.fd)

structure Owned (world : World) : Prop where
  nums : ((sinkFds world).map (·.num)).Nodup
  conns : ((sinkFds world).map (·.conn)).Nodup
  opened : ∀ fd ∈ sinkFds world, fd.num ∈ world.opened
  owner : ∀ fd ∈ sinkFds world, ∀ entry, Recorded world entry -> fd.num = entry.num -> fd = entry
  born : ∀ fd ∈ sinkFds world, fd.conn < world.conns
  bornClosed : ∀ fd, .closed fd ∈ world.trace -> fd.conn < world.conns
  live : ∀ fd ∈ sinkFds world, ∀ gone, .closed gone ∈ world.trace -> gone.conn ≠ fd.conn
  sends : SendsRight world.trace

section Traces

variable {trace : List Event}

theorem SendsRight.nil : SendsRight [] := by
  intro earlier event later split
  exact absurd split (List.append_ne_nil_of_right_ne_nil _ (List.cons_ne_nil _ _)).symm

theorem SendsRight.snoc (right : SendsRight trace) {event : Event} (here : SentRight trace event) :
    SendsRight (trace ++ [event]) := by
  intro earlier other later split
  rcases List.eq_nil_or_concat later with rfl | ⟨before, last, rfl⟩
  · rcases List.append_inj' split rfl with ⟨rfl, same⟩
    cases same
    exact here
  · rw [List.concat_eq_append, ← List.cons_append, ← List.append_assoc] at split
    exact right earlier other before (List.append_inj' split rfl).1

/-- Events after which the same connections are open. -/
theorem SendsRight.append (right : SendsRight trace) (events : List Event)
    (here : ∀ event ∈ events, SentRight trace event) (open_ : ∀ fd, .closed fd ∉ events) :
    SendsRight (trace ++ events) := by
  induction events using List.reverseRecOn with
  | nil =>
      rw [List.append_nil]
      exact right
  | append_singleton events event inductionHypothesis =>
      rw [← List.append_assoc]
      refine (inductionHypothesis (fun other member => here other (List.mem_append_left _ member))
        (fun fd member => open_ fd (List.mem_append_left _ member))).snoc ?_
      have own := here event (List.mem_append_right _ List.mem_cons_self)
      unfold SentRight at own ⊢
      split
      · refine ⟨own.1, ?_⟩
        intro fd member
        rcases List.mem_append.mp member with earlier | now
        · exact own.2 fd earlier
        · exact absurd (List.mem_append_left _ now) (open_ fd)
      · trivial

end Traces

section Steps

variable {host : Host} {before after : World}

/-- What is sent for an entry goes to the connection of the entry. -/
theorem Owned.sentRight (owned : Owned before) {call : SendCall} (entry : Recorded before call.fd) :
    SentRight before.trace (sendEvent before call) := by
  unfold sendEvent findSinkfdInApibus
  cases found : before.bus.sinkfds.find? (·.fd.num = call.fd.num) with
  | none => trivial
  | some sinkfd =>
      have listed : sinkfd.fd ∈ sinkFds before := List.mem_map.mpr ⟨sinkfd, List.mem_of_find?_eq_some found, rfl⟩
      have number : sinkfd.fd.num = call.fd.num := by simpa using List.find?_some found
      have same := owned.owner sinkfd.fd listed call.fd entry number
      rw [Option.map_some]
      refine ⟨congrArg Fd.conn same, ?_⟩
      intro gone closed
      rw [← same]
      exact owned.live sinkfd.fd listed gone closed

/-- A change that makes no new entry and no new sinkfd, with the sends of some
entries and other events that are no closing. -/
private theorem Owned.frame (owned : Owned before) (events : List Event)
    (fds : sinkFds after = sinkFds before) (opened : after.opened = before.opened)
    (conns : after.conns = before.conns) (trace : after.trace = before.trace ++ events)
    (recorded : ∀ entry, Recorded after entry -> Recorded before entry)
    (sends : ∀ event ∈ events, SentRight before.trace event) (open_ : ∀ fd, .closed fd ∉ events) :
    Owned after := by
  have closed : ∀ fd, .closed fd ∈ after.trace -> .closed fd ∈ before.trace := by
    intro fd member
    rw [trace] at member
    exact (List.mem_append.mp member).resolve_right (open_ fd)
  constructor
  case nums =>
    rw [fds]
    exact owned.nums
  case conns =>
    rw [fds]
    exact owned.conns
  case opened =>
    rw [fds, opened]
    exact owned.opened
  case owner =>
    rw [fds]
    exact fun fd listed entry member => owned.owner fd listed entry (recorded entry member)
  case born =>
    rw [fds, conns]
    exact owned.born
  case bornClosed =>
    rw [conns]
    exact fun fd member => owned.bornClosed fd (closed fd member)
  case live =>
    rw [fds]
    exact fun fd listed gone member => owned.live fd listed gone (closed gone member)
  case sends =>
    rw [trace]
    exact owned.sends.append events sends open_

private theorem Owned.quiet (owned : Owned before) (same : Quiet before after) : Owned after := by
  refine owned.frame [] same.fds same.opened same.conns (same.trace.trans (List.append_nil _).symm) ?_ (by simp)
    (by simp)
  intro entry member
  unfold Recorded at member ⊢
  rw [← same.stations, ← same.topics, ← same.requests, ← same.topicMsgs]
  exact member

/-- A sinkfd leaves the list; its descriptor may be closed with it. -/
private theorem Owned.remove (owned : Owned before) {front back : List SinkFd} {sinkfd : SinkFd}
    (place : before.bus.sinkfds = front ++ sinkfd :: back) (closing : Bool)
    (fds : after.bus.sinkfds = front ++ back) (conns : after.conns = before.conns)
    (recorded : ∀ entry, Recorded after entry -> Recorded before entry)
    (opened : after.opened = if closing then before.opened.erase sinkfd.fd.num else before.opened)
    (trace : after.trace = before.trace ++ if closing then [.closed sinkfd.fd] else []) : Owned after := by
  have whole : sinkFds before = front.map (·.fd) ++ sinkfd.fd :: back.map (·.fd) := by
    rw [sinkFds, place, List.map_append, List.map_cons]
  have left : sinkFds after = front.map (·.fd) ++ back.map (·.fd) := by
    rw [sinkFds, fds, List.map_append]
  have still : ∀ fd ∈ sinkFds after, fd ∈ sinkFds before := by
    intro fd listed
    rw [left] at listed
    rw [whole]
    exact List.mem_append.mpr ((List.mem_append.mp listed).imp id (List.mem_cons_of_mem _))
  have nums := owned.nums
  rw [whole, List.map_append, List.map_cons, List.nodup_middle, List.nodup_cons, ← List.map_append, ← left] at nums
  have conn := owned.conns
  rw [whole, List.map_append, List.map_cons, List.nodup_middle, List.nodup_cons, ← List.map_append, ← left] at conn
  have own : sinkfd.fd ∈ sinkFds before := by
    rw [whole]
    exact List.mem_append_right _ List.mem_cons_self
  have closed : ∀ fd, .closed fd ∈ after.trace -> .closed fd ∈ before.trace ∨ fd = sinkfd.fd := by
    intro fd member
    rw [trace] at member
    rcases List.mem_append.mp member with earlier | now
    · exact Or.inl earlier
    · cases closing with
      | false => exact absurd now List.not_mem_nil
      | true =>
          cases List.mem_singleton.mp now
          exact Or.inr rfl
  constructor
  case nums => exact nums.2
  case conns => exact conn.2
  case opened =>
    intro fd listed
    have number := owned.opened fd (still fd listed)
    rw [opened]
    cases closing with
    | false => exact number
    | true =>
        refine (List.mem_erase_of_ne ?_).mpr number
        intro same
        exact nums.1 (List.mem_map.mpr ⟨fd, listed, same⟩)
  case owner => exact fun fd listed entry member => owned.owner fd (still fd listed) entry (recorded entry member)
  case born =>
    rw [conns]
    exact fun fd listed => owned.born fd (still fd listed)
  case bornClosed =>
    rw [conns]
    intro fd member
    rcases closed fd member with earlier | rfl
    · exact owned.bornClosed fd earlier
    · exact owned.born _ own
  case live =>
    intro fd listed gone member
    rcases closed gone member with earlier | rfl
    · exact owned.live fd (still fd listed) gone earlier
    · exact fun same => conn.1 (List.mem_map.mpr ⟨fd, listed, same.symm⟩)
  case sends =>
    rw [trace]
    cases closing with
    | false =>
        rw [if_neg Bool.false_ne_true, List.append_nil]
        exact owned.sends
    | true => exact owned.sends.snoc trivial

/-- A number that no entry holds becomes a sinkfd. -/
private theorem Owned.opened_ (owned : Owned before) (num : Nat) (listen : Bool) (kind : SinkKind) (nfds : Nat)
    (unrecorded : ∀ entry, Recorded before entry -> entry.num ≠ num) (closed : num ∉ before.opened) :
    Owned ((registerFd before num kind nfds).setSinkfds
      (newSinkfd before num listen kind :: before.bus.sinkfds)) := by
  have fds : sinkFds ((registerFd before num kind nfds).setSinkfds
      (newSinkfd before num listen kind :: before.bus.sinkfds)) = ⟨num, before.conns⟩ :: sinkFds before := rfl
  have recorded : ∀ entry, Recorded ((registerFd before num kind nfds).setSinkfds
      (newSinkfd before num listen kind :: before.bus.sinkfds)) entry -> Recorded before entry := by
    intro entry
    cases kind <;> exact id
  have still : ∀ fd, .closed fd ∈ before.trace ++ [.opened ⟨num, before.conns⟩] -> .closed fd ∈ before.trace := by
    intro fd member
    rcases List.mem_append.mp member with earlier | now
    · exact earlier
    · cases List.mem_singleton.mp now
  constructor
  case nums =>
    rw [fds, List.map_cons, List.nodup_cons]
    refine ⟨?_, owned.nums⟩
    intro listed
    rcases List.mem_map.mp listed with ⟨fd, member, same⟩
    have number := owned.opened fd member
    rw [same] at number
    exact closed number
  case conns =>
    rw [fds, List.map_cons, List.nodup_cons]
    refine ⟨?_, owned.conns⟩
    intro listed
    rcases List.mem_map.mp listed with ⟨fd, member, same⟩
    exact absurd (owned.born fd member) (by rw [same]; exact Nat.lt_irrefl _)
  case opened =>
    intro fd listed
    rw [fds] at listed
    rcases List.mem_cons.mp listed with rfl | earlier
    · exact List.mem_cons_self
    · exact List.mem_cons_of_mem _ (owned.opened fd earlier)
  case owner =>
    intro fd listed entry member number
    rw [fds] at listed
    rcases List.mem_cons.mp listed with rfl | earlier
    · exact absurd number.symm (unrecorded entry (recorded entry member))
    · exact owned.owner fd earlier entry (recorded entry member) number
  case born =>
    intro fd listed
    rw [fds] at listed
    rcases List.mem_cons.mp listed with rfl | earlier
    · exact Nat.lt_succ_self _
    · exact Nat.lt_succ_of_lt (owned.born fd earlier)
  case bornClosed => exact fun fd member => Nat.lt_succ_of_lt (owned.bornClosed fd (still fd member))
  case live =>
    intro fd listed gone member
    rw [fds] at listed
    rcases List.mem_cons.mp listed with rfl | earlier
    · exact Nat.ne_of_lt (owned.bornClosed gone (still gone member))
    · exact owned.live fd earlier gone (still gone member)
  case sends => exact owned.sends.snoc trivial

/-- The sinks make no entry, and what was not recorded stays so. -/
theorem Owned.sinkStep {handsOut : Nat -> Prop} (step : SinkStep handsOut before after)
    (holds : Owned before ∧ ∀ num, handsOut num -> ∀ entry, Recorded before entry -> entry.num ≠ num) :
    Owned after ∧ ∀ num, handsOut num -> ∀ entry, Recorded after entry -> entry.num ≠ num := by
  rcases holds with ⟨owned, unrecorded⟩
  have recorded : ∀ entry, Recorded after entry -> Recorded before entry := by
    intro entry member
    cases step with
    | quiet same =>
        unfold Recorded at member ⊢
        rw [← same.stations, ← same.topics, ← same.requests, ← same.topicMsgs]
        exact member
    | opened num listen kind nfds _ _ => cases kind <;> exact member
    | destroyed _ _ _ _ => exact member
    | closed _ _ _ _ => exact member
  refine ⟨?_, fun num allowed entry member => unrecorded num allowed entry (recorded entry member)⟩
  cases step with
  | quiet same => exact owned.quiet same
  | opened num listen kind nfds allowed closed =>
      exact owned.opened_ num listen kind nfds (unrecorded num allowed) closed
  | destroyed _ sinkfd _ place =>
      exact owned.remove place false rfl rfl recorded rfl (List.append_nil _).symm
  | closed _ sinkfd _ place => exact owned.remove place true rfl rfl recorded rfl rfl

/-- Entries are made for sinkfds. -/
private theorem Owned.enter (owned : Owned before) {sinkfd : SinkFd} (listed : sinkfd ∈ before.bus.sinkfds)
    (event : Event) (fds : sinkFds after = sinkFds before) (opened : after.opened = before.opened)
    (conns : after.conns = before.conns) (trace : after.trace = before.trace ++ [event])
    (recorded : ∀ entry, Recorded after entry -> Recorded before entry ∨ entry = sinkfd.fd)
    (right : SentRight before.trace event) (open_ : ∀ fd, .closed fd ≠ event) : Owned after := by
  have member : sinkfd.fd ∈ sinkFds before := List.mem_map.mpr ⟨sinkfd, listed, rfl⟩
  have closed : ∀ fd, .closed fd ∈ after.trace -> .closed fd ∈ before.trace := by
    intro fd present
    rw [trace] at present
    exact (List.mem_append.mp present).resolve_right fun now => open_ fd (List.mem_singleton.mp now)
  constructor
  case nums =>
    rw [fds]
    exact owned.nums
  case conns =>
    rw [fds]
    exact owned.conns
  case opened =>
    rw [fds, opened]
    exact owned.opened
  case owner =>
    rw [fds]
    intro fd present entry made number
    rcases recorded entry made with earlier | rfl
    · exact owned.owner fd present entry earlier number
    · exact List.inj_on_of_nodup_map owned.nums present member number
  case born =>
    rw [fds, conns]
    exact owned.born
  case bornClosed =>
    rw [conns]
    exact fun fd present => owned.bornClosed fd (closed fd present)
  case live =>
    rw [fds]
    exact fun fd present gone made => owned.live fd present gone (closed gone made)
  case sends =>
    rw [trace]
    exact owned.sends.snoc right

theorem Owned.parseStep (step : ParseStep host before after) (owned : Owned before) : Owned after := by
  cases step with
  | quiet same => exact owned.quiet same
  | resync given left =>
      exact owned.frame [.resync given left] rfl rfl rfl rfl (fun _ member => member) (by simp [SentRight]) (by simp)
  | request sinkfd pac listed =>
      refine owned.enter listed _ rfl rfl rfl rfl ?_ trivial (by simp)
      rintro entry (station | topic | ⟨req, member, rfl⟩ | tmsg)
      · exact Or.inl (Or.inl station)
      · exact Or.inl (Or.inr (Or.inl topic))
      · rcases List.mem_cons.mp member with rfl | old
        · exact Or.inr rfl
        · exact Or.inl (Or.inr (Or.inr (Or.inl ⟨req, old, rfl⟩)))
      · exact Or.inl (Or.inr (Or.inr (Or.inr tmsg)))
  | response sinkfd pac listed =>
      exact owned.frame [_] rfl rfl rfl rfl (fun _ member => member) (by simp [SentRight]) (by simp)
  | topicMsg sinkfd pac listed =>
      refine owned.enter listed _ rfl rfl rfl rfl ?_ trivial (by simp)
      rintro entry (station | topic | req | ⟨tmsg, member, rfl⟩)
      · exact Or.inl (Or.inl station)
      · exact Or.inl (Or.inr (Or.inl topic))
      · exact Or.inl (Or.inr (Or.inr (Or.inl req)))
      · rcases List.mem_cons.mp member with rfl | old
        · exact Or.inr rfl
        · exact Or.inl (Or.inr (Or.inr (Or.inr ⟨tmsg, old, rfl⟩)))

/-- A handled request leaves no other descriptors behind than were there. -/
private theorem recorded_of_request {requests : List ApiRequest} {req : ApiRequest} {entry : Fd}
    (listed : req ∈ before.bus.requests)
    (kept : ∀ pos ∈ requests, ∃ old ∈ before.bus.requests, old.fd = pos.fd)
    (recorded : Recorded ((registerSource host before req).setRequests requests) entry) :
    Recorded before entry := by
  rcases recorded with ⟨station, member, rfl⟩ | topic | ⟨pos, member, rfl⟩ | tmsg
  · rcases mem_registerSource member with own | ⟨old, present, same⟩
    · exact Or.inr (Or.inr (Or.inl ⟨req, listed, own.symm⟩))
    · exact Or.inl ⟨old, present, same⟩
  · rw [registerSource_frame] at topic
    exact Or.inr (Or.inl topic)
  · rcases kept pos member with ⟨old, present, same⟩
    exact Or.inr (Or.inr (Or.inl ⟨old, present, same⟩))
  · rw [registerSource_frame] at tmsg
    exact Or.inr (Or.inr (Or.inr tmsg))

private theorem mem_around {Entry : Type} {front back : List Entry} {entry other : Entry}
    (member : other ∈ front ++ back) : other ∈ front ++ entry :: back :=
  List.mem_append.mpr ((List.mem_append.mp member).imp id (List.mem_cons_of_mem _))

/-- A change that makes no new entry and no new sinkfd, and one send to the
descriptor of an entry. -/
private theorem Owned.send (owned : Owned before) (call : SendCall) (target : Recorded before call.fd)
    (fds : sinkFds after = sinkFds before) (opened : after.opened = before.opened)
    (conns : after.conns = before.conns) (trace : after.trace = before.trace ++ [sendEvent before call])
    (recorded : ∀ entry, Recorded after entry -> Recorded before entry) : Owned after := by
  refine owned.frame [sendEvent before call] fds opened conns trace recorded ?_ (by simp [sendEvent])
  intro event member
  rw [List.mem_singleton.mp member]
  exact owned.sentRight target

private theorem recorded_request {req : ApiRequest} (listed : req ∈ before.bus.requests) : Recorded before req.fd :=
  Or.inr (Or.inr (Or.inl ⟨req, listed, rfl⟩))

/-- A response answers a request that is waiting, if there is one, and takes it
off the list. -/
private theorem Owned.answered (owned : Owned before) (resp : ApiResponse) (responses : List ApiResponse) :
    Owned ((touchDestination host (relayResponse before resp) resp).setResponses responses) := by
  have stations : ∀ entry, (∃ station ∈ (touchDestination host (relayResponse before resp) resp).bus.stations,
      station.fd = entry) -> ∃ station ∈ before.bus.stations, station.fd = entry := by
    rintro entry ⟨station, member, rfl⟩
    rcases mem_touchDestination member with ⟨old, present, same⟩
    rcases relayResponse_cases before resp with ⟨_, unchanged⟩ | ⟨_, _, _, _, _, relayed⟩
    · rw [unchanged] at present
      exact ⟨old, present, same⟩
    · rw [relayed] at present
      exact ⟨old, present, same⟩
  rcases touchDestination_frame host (relayResponse before resp) resp with ⟨reads, _, touched⟩
  rw [touched]
  rcases relayResponse_cases before resp with ⟨_, same⟩ | ⟨front, req, back, listed, _, relayed⟩
  · rw [same] at stations ⊢
    refine owned.frame [] rfl rfl rfl (List.append_nil _).symm ?_ (by simp) (by simp)
    rintro entry (station | topic | req | tmsg)
    · exact Or.inl (stations entry station)
    · exact Or.inr (Or.inl topic)
    · exact Or.inr (Or.inr (Or.inl req))
    · exact Or.inr (Or.inr (Or.inr tmsg))
  · rw [relayed] at stations ⊢
    have present : req ∈ before.bus.requests := by
      rw [listed]
      exact List.mem_append_cons_self
    refine owned.send (.relay resp req) (recorded_request present) rfl rfl rfl rfl ?_
    rintro entry (station | topic | ⟨pos, member, rfl⟩ | tmsg)
    · exact Or.inl (stations entry station)
    · exact Or.inr (Or.inl topic)
    · refine recorded_request ?_
      rw [listed]
      exact mem_around member
    · exact Or.inr (Or.inr (Or.inr tmsg))

/-- A topic packet is handled for its own descriptor and those of the topics. -/
private theorem Owned.handled (owned : Owned before) {earlier later : List ApiTopicMsg} {tmsg : ApiTopicMsg}
    (place : before.bus.topicMsgs = earlier ++ tmsg :: later) :
    Owned (((applyTopicMsg before tmsg).emit (.handledTopicMsg tmsg)).setTopicMsgs (earlier ++ later)) := by
  have listed : tmsg ∈ before.bus.topicMsgs := by
    rw [place]
    exact List.mem_append_cons_self
  have known : ∀ fd, fd = tmsg.fd ∨ (∃ old ∈ before.bus.topics, fd ∈ old.fds) -> Recorded before fd := by
    rintro fd (rfl | topic)
    · exact Or.inr (Or.inr (Or.inr ⟨tmsg, listed, rfl⟩))
    · exact Or.inr (Or.inl topic)
  rcases applyTopicMsg_effect before tmsg with ⟨topics, calls, stopped, effect, _, subscribed, allowed⟩
  rw [effect]
  refine owned.frame (calls.map (sendEvent before) ++ [Event.handledTopicMsg tmsg]) rfl rfl rfl
    (by rw [← List.append_assoc]; rfl) ?_ ?_ (by simp [sendEvent])
  · rintro entry (station | ⟨topic, member, fd⟩ | req | ⟨pos, member, rfl⟩)
    · exact Or.inl station
    · exact known entry (subscribed topic member entry fd)
    · exact Or.inr (Or.inr (Or.inl req))
    · refine Or.inr (Or.inr (Or.inr ⟨pos, ?_, rfl⟩))
      rw [place]
      exact mem_around member
  · intro event member
    rcases List.mem_append.mp member with sent | handled
    · rcases List.mem_map.mp sent with ⟨call, made, rfl⟩
      exact owned.sentRight (known call.fd (allowed call made).2)
    · rw [List.mem_singleton.mp handled]
      trivial

theorem Owned.handleStep (step : HandleStep host before after) (owned : Owned before) : Owned after := by
  have present : ∀ {earlier later : List ApiRequest} {req : ApiRequest},
      before.bus.requests = earlier ++ req :: later -> req ∈ before.bus.requests := by
    intro earlier later req place
    rw [place]
    exact List.mem_append_cons_self
  cases step with
  | quiet same => exact owned.quiet same
  | timeout earlier req later place _ _ =>
      refine owned.send (.requestTimeout req) (recorded_request (present place)) rfl rfl rfl rfl ?_
      rintro entry (station | topic | ⟨pos, member, rfl⟩ | tmsg)
      · exact Or.inl station
      · exact Or.inr (Or.inl topic)
      · refine recorded_request ?_
        rw [place]
        exact mem_around member
      · exact Or.inr (Or.inr (Or.inr tmsg))
  | notFound earlier req later place _ _ =>
      have recorded : ∀ entry, Recorded ((registerSource host before req).setRequests (earlier ++ later)) entry ->
          Recorded before entry := by
        intro entry
        refine recorded_of_request (present place) (fun pos member => ⟨pos, ?_, rfl⟩)
        rw [place]
        exact mem_around member
      rw [registerSource_frame] at recorded ⊢
      exact owned.send (.stationNotFound req) (recorded_request (present place)) rfl rfl rfl rfl recorded
  | forward earlier req later dst place _ known =>
      have target : Recorded before dst.fd := by
        rcases Option.bind_eq_some_iff.mp known with ⟨sttid, _, found⟩
        rcases mem_registerSource (List.mem_of_find?_eq_some found) with own | ⟨old, listed, same⟩
        · rw [own]
          exact recorded_request (present place)
        · exact Or.inl ⟨old, listed, same⟩
      have recorded : ∀ entry,
          Recorded ((registerSource host before req).setRequests (earlier ++
            { req with state := .waitResponse, tsSend := (registerSource host before req).time host } :: later))
              entry -> Recorded before entry := by
        intro entry
        refine recorded_of_request (present place) (fun pos member => ?_)
        rw [place]
        rcases List.mem_append.mp member with front | rest
        · exact ⟨pos, List.mem_append_left _ front, rfl⟩
        · rcases List.mem_cons.mp rest with rfl | back
          · exact ⟨req, List.mem_append_cons_self, rfl⟩
          · exact ⟨pos, List.mem_append_right _ (List.mem_cons_of_mem _ back), rfl⟩
      rw [registerSource_frame] at recorded ⊢
      exact owned.send (.forward req dst) target rfl rfl rfl rfl recorded
  | response earlier resp later _ _ => exact owned.answered resp (earlier ++ later)
  | topicMsg earlier tmsg later place _ => exact owned.handled place
  | dropStation earlier station later place _ =>
      refine owned.frame [] rfl rfl rfl (List.append_nil _).symm ?_ (by simp) (by simp)
      rintro entry (⟨pos, member, rfl⟩ | topic | req | tmsg)
      · refine Or.inl ⟨pos, ?_, rfl⟩
        rw [place]
        exact mem_around member
      · exact Or.inr (Or.inl topic)
      · exact Or.inr (Or.inr (Or.inl req))
      · exact Or.inr (Or.inr (Or.inr tmsg))

end Steps

/-- No number is handed out while an entry holds it. -/
def FreshNumbers (world : World) : BusInput -> Prop
  | .poll input => ∀ num, input.HandsOut num -> ∀ entry, Recorded world entry -> entry.num ≠ num
  | .openSink _ answer => ∀ num, answer = some num -> ∀ entry, Recorded world entry -> entry.num ≠ num
  | .close _ => True

theorem busStep_owned {host : Host} (world : World) (input : BusInput) (fresh : FreshNumbers world input)
    (owned : Owned world) : Owned (busStep host world input) := by
  cases input with
  | poll input =>
      rcases busStep_poll host world input with same | ⟨_, polled⟩
      · rw [same]
        exact owned
      · rw [polled]
        have received := (steps_invariant
          (fun world => Owned world ∧
            ∀ num, input.HandsOut num -> ∀ entry, Recorded world entry -> entry.num ≠ num)
          (fun _ _ => Owned.sinkStep) (sinkPhase_steps host input world) ⟨owned, fresh⟩).1
        have parsed := steps_invariant Owned (fun _ _ => Owned.parseStep) (receivePhase_steps input world) received
        exact steps_invariant Owned (fun _ _ => Owned.handleStep) (handlePhase_steps _) parsed
  | openSink kind answer =>
      exact (steps_invariant
        (fun world => Owned world ∧ ∀ num, answer = some num -> ∀ entry, Recorded world entry -> entry.num ≠ num)
        (fun _ _ => Owned.sinkStep) (busStep_openSink_steps world kind answer) ⟨owned, fresh⟩).1
  | close num =>
      exact (steps_invariant
        (fun world => Owned world ∧ ∀ num, False -> ∀ entry, Recorded world entry -> entry.num ≠ num)
        (fun _ _ => Owned.sinkStep) (busStep_close_steps world num) ⟨owned, fun _ none => none.elim⟩).1

theorem apibusNew_owned : Owned apibusNew where
  nums := List.nodup_nil
  conns := List.nodup_nil
  opened := by simp [sinkFds, apibusNew]
  owner := by simp [sinkFds, apibusNew]
  born := by simp [sinkFds, apibusNew]
  bornClosed := by simp [apibusNew]
  live := by simp [sinkFds, apibusNew]
  sends := SendsRight.nil

/-- In a run in which no number is handed out while an entry holds it,
everything sent for an entry goes to the connection the entry was made on, and
nothing is sent for it once that connection is closed. -/
theorem busRun_sendsRight (host : Host) (inputs : List BusInput)
    (fresh : EveryStep host FreshNumbers apibusNew inputs) : SendsRight (busRun host apibusNew inputs).trace :=
  (busRun_conditional Owned (fun world input => busStep_owned world input) inputs apibusNew fresh
    apibusNew_owned).sends

/-- The numbers in the entries of the bus. -/
def recordedNums (world : World) : List Nat :=
  world.bus.stations.map (·.fd.num) ++ world.bus.topics.flatMap (·.fds.map (·.num)) ++
    (world.bus.requests.map (·.fd.num) ++ world.bus.topicMsgs.map (·.fd.num))

theorem Recorded.num_mem {world : World} {fd : Fd} (recorded : Recorded world fd) : fd.num ∈ recordedNums world := by
  unfold recordedNums
  rcases recorded with ⟨station, listed, rfl⟩ | ⟨topic, listed, member⟩ | ⟨req, listed, rfl⟩ | ⟨tmsg, listed, rfl⟩
  · exact List.mem_append_left _ (List.mem_append_left _ (List.mem_map_of_mem listed))
  · exact List.mem_append_left _ (List.mem_append_right _ (List.mem_flatMap.mpr
      ⟨topic, listed, List.mem_map_of_mem member⟩))
  · exact List.mem_append_right _ (List.mem_append_left _ (List.mem_map_of_mem listed))
  · exact List.mem_append_right _ (List.mem_append_right _ (List.mem_map_of_mem listed))

private theorem fresh_of_notMem {world : World} {num : Nat} (absent : num ∉ recordedNums world) (entry : Fd)
    (recorded : Recorded world entry) : entry.num ≠ num :=
  fun same => absent (same ▸ recorded.num_mem)

/-! ## A number handed out again -/

/-- A subscription to `/x` and a publication on it. -/
def subscription : List UInt8 := ascii "#0,$,0010:/x?{}" ++ [0]

def publication : List UInt8 := ascii "@0,$,0010:/x?{}" ++ [0]

/-- The sink has only this descriptor ready. -/
private def readyOn (kind : SinkKind) (fd : Nat) (num : Option Nat) (bytes : List UInt8) : BusInput :=
  .poll ⟨fun other => some (if other = kind then [fd] else []), fun _ => num, fun _ => some bytes⟩

/-- A unix client gets number 5, subscribes and is closed.  Its entry is still
there when a tcp client gets number 6, publishes and asks for a station. -/
private def freshNumber : List BusInput :=
  [.openSink .tcp (some 3), .openSink .unix (some 4), readyOn .unix 4 (some 5) [], readyOn .unix 5 none subscription,
    .close 5, readyOn .tcp 3 (some 6) [], readyOn .tcp 6 none publication, readyOn .tcp 6 none oneRequest]

/-- The calls of a trace, each with the number that it is about and the one
that it goes to. -/
private def sends (trace : List Event) : List (Nat × Option Nat) :=
  trace.filterMap fun
    | .send call sentTo => some (call.fd.num, sentTo.map (·.num))
    | _ => none

theorem busRun_sendsRight_freshNumber :
    SendsRight (busRun (Host.still 0) apibusNew freshNumber).trace ∧
      sends (busRun (Host.still 0) apibusNew freshNumber).trace = [(5, some 5), (5, none), (6, some 6)] := by
  refine ⟨busRun_sendsRight (Host.still 0) freshNumber ⟨?_, ?_, ?_, ?_, trivial, ?_, ?_, ?_, trivial⟩,
    by decide +kernel⟩
  · rintro num ⟨⟩
    exact fresh_of_notMem (by decide +kernel)
  · rintro num ⟨⟩
    exact fresh_of_notMem (by decide +kernel)
  · rintro num ⟨listening, ⟨⟩⟩
    exact fresh_of_notMem (by decide +kernel)
  · rintro num ⟨listening, ⟨⟩⟩
  · rintro num ⟨listening, ⟨⟩⟩
    exact fresh_of_notMem (by decide +kernel)
  · rintro num ⟨listening, ⟨⟩⟩
  · rintro num ⟨listening, ⟨⟩⟩

/-- A unix client gets number 5, subscribes and is closed; a tcp client gets
number 5 and publishes. -/
def reusedNumber : List BusInput :=
  let ready (kind : SinkKind) (fd : Nat) : SinkKind -> Option (List Nat) := fun other =>
    some (if other = kind then [fd] else [])
  [.openSink .tcp (some 3),
    .openSink .unix (some 4),
    .poll ⟨ready .unix 4, fun _ => some 5, fun _ => none⟩,
    .poll ⟨ready .unix 5, fun _ => none, fun _ => some subscription⟩,
    .close 5,
    .poll ⟨ready .tcp 3, fun _ => some 5, fun _ => none⟩,
    .poll ⟨ready .tcp 5, fun _ => none, fun _ => some publication⟩]

/-- The connections that a trace sends to, for a call about another one. -/
private def strangers (trace : List Event) : List Nat :=
  trace.filterMap fun
    | .send call (some sentTo) => if sentTo.conn = call.fd.conn then none else some sentTo.conn
    | _ => none

private theorem SendsRight.strangers {trace : List Event} (right : SendsRight trace) : strangers trace = [] := by
  refine List.filterMap_eq_nil_iff.mpr ?_
  intro event member
  rcases List.append_of_mem member with ⟨earlier, later, split⟩
  have here := right earlier event later split
  split
  · exact if_pos here.1
  · rfl

/-- The tcp client, which never subscribed, is sent the publication. -/
theorem reusedNumber_not_sendsRight : ¬ ∀ host inputs, SendsRight (busRun host apibusNew inputs).trace := by
  intro always
  have none := (always (Host.still 0) reusedNumber).strangers
  have sent : strangers (busRun (Host.still 0) apibusNew reusedNumber).trace = [3] := by decide +kernel
  rw [sent] at none
  cases none

end Bus
end Extlib
