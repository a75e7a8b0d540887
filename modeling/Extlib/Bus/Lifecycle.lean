import Extlib.Bus.Steps

namespace Extlib
namespace Bus

open Srrp Machine World

/-!
# The life of a request

The trace tells for every request what was done for it: it was received,
perhaps forwarded, perhaps answered.  `Course` lists the histories a request
may have and the phase each leaves it in; the invariant is that the pending
list holds exactly the requests whose history has not come to an answer, each
in the phase its `state` says.
-/

/-- The three answers a requester may get. -/
inductive Answer where
  | stationNotFound
  | timeout
  | response (resp : ApiResponse)
  deriving DecidableEq, Repr

inductive DeedKind where
  | received
  | forwarded
  | answered (answer : Answer)
  deriving DecidableEq, Repr

/-- The request as it was put on the list. -/
def asReceived (req : ApiRequest) : ApiRequest := { req with state := .none, tsSend := 0 }

/-- Something done for a request. -/
structure Deed where
  kind : DeedKind
  req : ApiRequest
  deriving DecidableEq, Repr

def deedOf : Event -> Option Deed
  | .receivedRequest req => some ⟨.received, asReceived req⟩
  | .send (.forward req _) _ => some ⟨.forwarded, asReceived req⟩
  | .send (.stationNotFound req) _ => some ⟨.answered .stationNotFound, asReceived req⟩
  | .send (.requestTimeout req) _ => some ⟨.answered .timeout, asReceived req⟩
  | .send (.relay resp req) _ => some ⟨.answered (.response resp), asReceived req⟩
  | _ => none

/-- What was done for the request that was allocated as number `node`. -/
def history (node : Nat) (trace : List Event) : List Deed :=
  (trace.filterMap deedOf).filter (·.req.node = node)

inductive Phase where
  | fresh
  | waiting
  | over
  deriving DecidableEq, Repr

def phaseOf : RequestState -> Phase
  | .none => .fresh
  | .waitResponse => .waiting

/-- The histories of a request.  Only a request that was not forwarded is told
that there is no station, and only one that was gets another answer. -/
inductive Course (req : ApiRequest) : Phase -> List Deed -> Prop where
  | received : Course req .fresh [⟨.received, req⟩]
  | forwarded : Course req .waiting [⟨.received, req⟩, ⟨.forwarded, req⟩]
  | refused : Course req .over [⟨.received, req⟩, ⟨.answered .stationNotFound, req⟩]
  | answered (answer : Answer) (forwarded : answer ≠ .stationNotFound) :
      Course req .over [⟨.received, req⟩, ⟨.forwarded, req⟩, ⟨.answered answer, req⟩]

theorem history_append (node : Nat) (earlier later : List Event) :
    history node (earlier ++ later) = history node earlier ++ history node later := by
  rw [history, List.filterMap_append, List.filter_append]
  rfl

theorem history_none (node : Nat) {events : List Event} (silent : ∀ event ∈ events, deedOf event = none) :
    history node events = [] := by
  rw [history, List.filterMap_eq_nil_iff.mpr silent, List.filter_nil]

theorem history_single (node : Nat) {event : Event} {deed : Deed} (done : deedOf event = some deed) :
    history node [event] = if deed.req.node = node then [deed] else [] := by
  simp only [history, List.filterMap_cons, done, List.filterMap_nil, List.filter_cons, List.filter_nil,
    decide_eq_true_eq]

theorem Course.begins {req : ApiRequest} {phase : Phase} {deeds : List Deed}
    (course : Course req phase deeds) : ⟨.received, req⟩ ∈ deeds := by
  cases course <;> exact List.mem_cons_self

/-- An entry with a later number than all the others may be put in front. -/
theorem nodup_numbered {Entry : Type*} {number : Entry -> Nat} {entries : List Entry} {entry : Entry}
    (distinct : (entries.map number).Nodup) (earlier : ∀ other ∈ entries, number other < number entry) :
    ((entry :: entries).map number).Nodup := by
  rw [List.map_cons, List.nodup_cons]
  refine ⟨?_, distinct⟩
  intro listed
  rcases List.mem_map.mp listed with ⟨other, member, same⟩
  have := earlier other member
  omega

/-! ## The invariant -/

/-- The pending list against the trace.  Numbers from `nodes` on have not been
given to an entry yet. -/
structure RequestLife (requests : List ApiRequest) (nodes : Nat) (trace : List Event) : Prop where
  distinct : (requests.map (·.node)).Nodup
  pending : ∀ req ∈ requests, Course (asReceived req) (phaseOf req.state) (history req.node trace)
  past : ∀ node, node ∉ requests.map (·.node) ->
    history node trace = [] ∨ ∃ req, Course req .over (history node trace)
  unborn : ∀ node, nodes ≤ node -> history node trace = []

namespace RequestLife

variable {requests : List ApiRequest} {nodes : Nat} {trace : List Event}

/-- Events of another kind do not matter. -/
theorem frame (life : RequestLife requests nodes trace) {events : List Event}
    (silent : ∀ event ∈ events, deedOf event = none) {later : Nat} (grown : nodes ≤ later) :
    RequestLife requests later (trace ++ events) := by
  have same : ∀ node, history node (trace ++ events) = history node trace := by
    intro node
    rw [history_append, history_none node silent, List.append_nil]
  exact
    { distinct := life.distinct
      pending := fun req listed => by
        rw [same]
        exact life.pending req listed
      past := fun node absent => by
        rw [same]
        exact life.past node absent
      unborn := fun node unborn => by
        rw [same]
        exact life.unborn node (Nat.le_trans grown unborn) }

/-- The number of a pending request has been given out. -/
theorem node_lt (life : RequestLife requests nodes trace) {req : ApiRequest} (listed : req ∈ requests) :
    req.node < nodes := by
  by_contra unborn
  have course := life.pending req listed
  rw [life.unborn req.node (Nat.le_of_not_lt unborn)] at course
  exact List.not_mem_nil course.begins

theorem receive (life : RequestLife requests nodes trace) {req : ApiRequest} (node : req.node = nodes)
    (fresh : asReceived req = req) :
    RequestLife (req :: requests) (nodes + 1) (trace ++ [.receivedRequest req]) := by
  have done : deedOf (.receivedRequest req) = some ⟨.received, req⟩ := by rw [deedOf, fresh]
  have other : ∀ node, node ≠ req.node -> history node (trace ++ [.receivedRequest req]) = history node trace := by
    intro node different
    rw [history_append, history_single node done, if_neg (Ne.symm different), List.append_nil]
  have own : history req.node (trace ++ [.receivedRequest req]) = [⟨.received, req⟩] := by
    rw [history_append, life.unborn req.node (Nat.le_of_eq node.symm), history_single _ done, if_pos rfl]
    rfl
  have state : phaseOf req.state = .fresh := by
    rw [← fresh]
    rfl
  constructor
  case distinct => exact nodup_numbered life.distinct (fun earlier member => node ▸ life.node_lt member)
  case pending =>
    intro pos listed
    rcases List.mem_cons.mp listed with rfl | earlier
    · rw [own, fresh, state]
      exact .received
    · have older := life.node_lt earlier
      rw [other pos.node (by omega)]
      exact life.pending pos earlier
  case past =>
    intro node absent
    rw [List.map_cons, List.mem_cons, not_or] at absent
    rw [other node absent.1]
    exact life.past node absent.2
  case unborn =>
    intro node later
    rw [other node (by omega)]
    exact life.unborn node (by omega)

section Change

variable {before after : List ApiRequest} {req : ApiRequest} {event : Event} {kind : DeedKind}

/-- A deed for the request at some place of the list changes its history and
no other. -/
private theorem history_deed (trace : List Event) (done : deedOf event = some ⟨kind, asReceived req⟩) :
    history req.node (trace ++ [event]) = history req.node trace ++ [⟨kind, asReceived req⟩] ∧
      ∀ node, node ≠ req.node -> history node (trace ++ [event]) = history node trace := by
  constructor
  · rw [history_append, history_single _ done]
    exact congrArg _ (if_pos rfl)
  · intro node different
    have silent : history node [event] = [] := (history_single node done).trans (if_neg (Ne.symm different))
    rw [history_append, silent, List.append_nil]

/-- The other entries of the list have other numbers. -/
private theorem node_ne (distinct : ((before ++ req :: after).map (·.node)).Nodup) :
    ∀ pos, pos ∈ before ++ after -> pos.node ≠ req.node := by
  rw [List.map_append, List.map_cons, List.nodup_middle, List.nodup_cons, ← List.map_append] at distinct
  intro pos listed same
  exact distinct.1 (List.mem_map.mpr ⟨pos, listed, same⟩)

/-- A deed of a pending request is none of a number not given out. -/
private theorem unborn_after {requests : List ApiRequest} (life : RequestLife requests nodes trace)
    (listed : req ∈ requests)
    (others : ∀ node, node ≠ req.node -> history node (trace ++ [event]) = history node trace) :
    ∀ node, nodes ≤ node -> history node (trace ++ [event]) = [] := by
  intro node later
  have := life.node_lt listed
  rw [others node (by omega)]
  exact life.unborn node later

theorem forward (life : RequestLife (before ++ req :: after) nodes trace) (fresh : req.state = .none)
    (done : deedOf event = some ⟨.forwarded, asReceived req⟩) (tsSend : Nat) :
    RequestLife (before ++ { req with state := .waitResponse, tsSend := tsSend } :: after) nodes
      (trace ++ [event]) := by
  have histories := history_deed trace done
  have others := node_ne life.distinct
  have listed : req ∈ before ++ req :: after := List.mem_append_right _ List.mem_cons_self
  have started := life.pending req listed
  have sameNodes : (before ++ { req with state := .waitResponse, tsSend := tsSend } :: after).map (·.node) =
      (before ++ req :: after).map (·.node) := by
    simp only [List.map_append, List.map_cons]
  constructor
  case distinct =>
    rw [sameNodes]
    exact life.distinct
  case pending =>
    intro pos member
    rw [List.mem_append, List.mem_cons] at member
    rcases member with earlier | rfl | later
    · rw [histories.2 _ (others pos (List.mem_append_left _ earlier))]
      exact life.pending pos (List.mem_append_left _ earlier)
    · rw [fresh] at started
      change Course (asReceived req) .waiting (history req.node (trace ++ [event]))
      rw [histories.1]
      cases received : history req.node trace with
      | nil =>
          rw [received] at started
          cases started
      | cons deed rest =>
          rw [received] at started
          cases started
          exact .forwarded
    · rw [histories.2 _ (others pos (List.mem_append_right _ later))]
      exact life.pending pos (List.mem_append_right _ (List.mem_cons_of_mem _ later))
  case past =>
    intro node absent
    rw [sameNodes] at absent
    have different : node ≠ req.node := by
      rintro rfl
      exact absent (List.mem_map.mpr ⟨req, listed, rfl⟩)
    rw [histories.2 node different]
    exact life.past node absent
  case unborn => exact unborn_after life listed histories.2

/-- An answer takes the request off the list. -/
theorem answer (life : RequestLife (before ++ req :: after) nodes trace) {answer : Answer}
    (allowed : (req.state = .none ∧ answer = .stationNotFound) ∨
      (req.state = .waitResponse ∧ answer ≠ .stationNotFound))
    (done : deedOf event = some ⟨.answered answer, asReceived req⟩) :
    RequestLife (before ++ after) nodes (trace ++ [event]) := by
  have histories := history_deed trace done
  have others := node_ne life.distinct
  have listed : req ∈ before ++ req :: after := List.mem_append_right _ List.mem_cons_self
  have started := life.pending req listed
  have course : Course (asReceived req) .over (history req.node (trace ++ [event])) := by
    rw [histories.1]
    rcases allowed with ⟨fresh, rfl⟩ | ⟨waiting, forwarded⟩
    · rw [fresh] at started
      generalize history req.node trace = deeds at started ⊢
      cases started
      exact .refused
    · rw [waiting] at started
      generalize history req.node trace = deeds at started ⊢
      cases started
      exact .answered answer forwarded
  constructor
  case distinct =>
    have distinct := life.distinct
    rw [List.map_append, List.map_cons, List.nodup_middle, List.nodup_cons, ← List.map_append] at distinct
    exact distinct.2
  case pending =>
    intro pos member
    rw [histories.2 _ (others pos member)]
    exact life.pending pos (List.mem_append.mpr ((List.mem_append.mp member).imp id (List.mem_cons_of_mem _)))
  case past =>
    intro node absent
    by_cases own : node = req.node
    · rw [own]
      exact Or.inr ⟨_, course⟩
    · rw [histories.2 node own]
      refine life.past node ?_
      intro member
      rw [List.map_append, List.map_cons, List.mem_append, List.mem_cons] at member
      rw [List.map_append, List.mem_append] at absent
      rcases member with earlier | same | later
      · exact absent (Or.inl earlier)
      · exact own same
      · exact absent (Or.inr later)
  case unborn => exact unborn_after life listed histories.2

end Change

end RequestLife

/-- A relay of the response that was allocated as number `node`. -/
def relays (node : Nat) : Event -> Bool
  | .send (.relay resp _) _ => resp.node = node
  | _ => false

/-- The responses on the list have not been relayed, none is relayed twice,
and what is relayed is a response that was received. -/
structure ResponseLife (responses : List ApiResponse) (nodes : Nat) (trace : List Event) : Prop where
  distinct : (responses.map (·.node)).Nodup
  born : ∀ resp ∈ responses, resp.node < nodes
  unused : ∀ resp ∈ responses, trace.countP (relays resp.node) = 0
  once : ∀ node, trace.countP (relays node) ≤ 1
  unborn : ∀ node, nodes ≤ node -> trace.countP (relays node) = 0
  arrived : ∀ resp ∈ responses, .receivedResponse resp ∈ trace
  genuine : ∀ resp req sentTo, .send (.relay resp req) sentTo ∈ trace -> .receivedResponse resp ∈ trace

namespace ResponseLife

variable {responses : List ApiResponse} {nodes : Nat} {trace : List Event}

theorem frame (life : ResponseLife responses nodes trace) {events : List Event}
    (silent : ∀ event ∈ events, ∀ node, relays node event = false) {later : Nat} (grown : nodes ≤ later) :
    ResponseLife responses later (trace ++ events) := by
  have same : ∀ node, (trace ++ events).countP (relays node) = trace.countP (relays node) := by
    intro node
    have none : events.countP (relays node) = 0 :=
      List.countP_eq_zero.mpr fun event member => by simp [silent event member node]
    rw [List.countP_append, none, Nat.add_zero]
  exact
    { distinct := life.distinct
      born := fun resp listed => Nat.lt_of_lt_of_le (life.born resp listed) grown
      unused := fun resp listed => by
        rw [same]
        exact life.unused resp listed
      once := fun node => by
        rw [same]
        exact life.once node
      unborn := fun node unborn => by
        rw [same]
        exact life.unborn node (Nat.le_trans grown unborn)
      arrived := fun resp listed => List.mem_append_left _ (life.arrived resp listed)
      genuine := fun resp req sentTo member => by
        rcases List.mem_append.mp member with earlier | later
        · exact List.mem_append_left _ (life.genuine resp req sentTo earlier)
        · have relayed := silent _ later resp.node
          simp [relays] at relayed }

theorem receive (life : ResponseLife responses nodes trace) {resp : ApiResponse} (node : resp.node = nodes) :
    ResponseLife (resp :: responses) (nodes + 1) (trace ++ [.receivedResponse resp]) := by
  have framed : ResponseLife responses (nodes + 1) (trace ++ [.receivedResponse resp]) := by
    refine life.frame ?_ (Nat.le_succ nodes)
    intro event member node
    rw [List.mem_singleton.mp member]
    rfl
  constructor
  case distinct => exact nodup_numbered life.distinct (fun earlier member => node ▸ life.born earlier member)
  case born =>
    intro pos listed
    rcases List.mem_cons.mp listed with rfl | earlier
    · omega
    · exact framed.born pos earlier
  case unused =>
    intro pos listed
    rcases List.mem_cons.mp listed with rfl | earlier
    · rw [List.countP_append, life.unborn pos.node (by omega)]
      rfl
    · exact framed.unused pos earlier
  case once => exact framed.once
  case unborn => exact fun node later => framed.unborn node later
  case arrived =>
    intro pos listed
    rcases List.mem_cons.mp listed with rfl | earlier
    · exact List.mem_append_right _ List.mem_cons_self
    · exact framed.arrived pos earlier
  case genuine => exact framed.genuine

/-- A response leaves the list, relayed or not. -/
theorem handle {before after : List ApiResponse} {resp : ApiResponse}
    (life : ResponseLife (before ++ resp :: after) nodes trace) {events : List Event}
    (relayed : events = [] ∨ ∃ req sentTo, events = [.send (.relay resp req) sentTo]) :
    ResponseLife (before ++ after) nodes (trace ++ events) := by
  have listed : resp ∈ before ++ resp :: after := List.mem_append_right _ List.mem_cons_self
  have distinct := life.distinct
  rw [List.map_append, List.map_cons, List.nodup_middle, List.nodup_cons, ← List.map_append] at distinct
  have others : ∀ node, node ≠ resp.node -> (trace ++ events).countP (relays node) = trace.countP (relays node) := by
    intro node different
    rcases relayed with rfl | ⟨req, sentTo, rfl⟩
    · rw [List.append_nil]
    · have silent : relays node (.send (.relay resp req) sentTo) = false := by
        simpa [relays] using Ne.symm different
      rw [List.countP_append, List.countP_singleton, silent]
      rfl
  have still : ∀ pos, pos ∈ before ++ after -> pos ∈ before ++ resp :: after := fun pos member =>
    List.mem_append.mpr ((List.mem_append.mp member).imp id (List.mem_cons_of_mem _))
  constructor
  case distinct => exact distinct.2
  case born => exact fun pos member => life.born pos (still pos member)
  case unused =>
    intro pos member
    have different : pos.node ≠ resp.node := fun same =>
      distinct.1 (List.mem_map.mpr ⟨pos, member, same⟩)
    rw [others pos.node different]
    exact life.unused pos (still pos member)
  case once =>
    intro node
    by_cases own : node = resp.node
    · rw [own, List.countP_append, life.unused resp listed, Nat.zero_add]
      rcases relayed with rfl | ⟨req, sentTo, rfl⟩
      · exact Nat.zero_le 1
      · exact List.countP_le_length
    · rw [others node own]
      exact life.once node
  case unborn =>
    intro node later
    have := life.born resp listed
    rw [others node (by omega)]
    exact life.unborn node later
  case arrived => exact fun pos member => List.mem_append_left _ (life.arrived pos (still pos member))
  case genuine =>
    intro pos req sentTo member
    rcases List.mem_append.mp member with earlier | now
    · exact List.mem_append_left _ (life.genuine pos req sentTo earlier)
    · rcases relayed with rfl | ⟨_, _, rfl⟩
      · exact absurd now List.not_mem_nil
      · cases List.mem_singleton.mp now
        exact List.mem_append_left _ (life.arrived resp listed)

end ResponseLife

/-! ## Every step keeps it -/

section Steps

variable {host : Host} {before after : World}

/-- The life of all requests and of all responses. -/
structure Lives (world : World) : Prop where
  requests : RequestLife world.bus.requests world.nodes world.trace
  responses : ResponseLife world.bus.responses world.nodes world.trace

/-- A change of neither list, with events that are about neither. -/
private theorem Lives.frame (lives : Lives before) {events : List Event}
    (requests : after.bus.requests = before.bus.requests) (responses : after.bus.responses = before.bus.responses)
    (nodes : before.nodes ≤ after.nodes) (trace : after.trace = before.trace ++ events)
    (silent : ∀ event ∈ events, deedOf event = none ∧ ∀ node, relays node event = false) : Lives after where
  requests := by
    rw [requests, trace]
    exact lives.requests.frame (fun event member => (silent event member).1) nodes
  responses := by
    rw [responses, trace]
    exact lives.responses.frame (fun event member => (silent event member).2) nodes

private theorem Lives.quiet (lives : Lives before) (same : Quiet before after) : Lives after :=
  lives.frame same.requests same.responses (Nat.le_of_eq same.nodes.symm)
    (same.trace.trans (List.append_nil _).symm) (by simp)

theorem Lives.sinkStep {handsOut : Nat -> Prop} (step : SinkStep handsOut before after) (lives : Lives before) :
    Lives after := by
  cases step with
  | quiet same => exact lives.quiet same
  | opened num listen kind nfds _ _ =>
      have frame : ((registerFd before num kind nfds).setSinkfds
          (newSinkfd before num listen kind :: before.bus.sinkfds)).bus.requests = before.bus.requests ∧
          ((registerFd before num kind nfds).setSinkfds
          (newSinkfd before num listen kind :: before.bus.sinkfds)).bus.responses = before.bus.responses ∧
          (registerFd before num kind nfds).nodes = before.nodes := by
        cases kind <;> exact ⟨rfl, rfl, rfl⟩
      exact lives.frame frame.1 frame.2.1 (Nat.le_of_eq frame.2.2.symm) rfl (by simp [deedOf, relays])
  | destroyed _ _ _ _ => exact lives.frame rfl rfl (Nat.le_refl _) (List.append_nil _).symm (by simp)
  | closed _ _ _ _ => exact lives.frame rfl rfl (Nat.le_refl _) rfl (by simp [deedOf, relays])

theorem Lives.parseStep (step : ParseStep host before after) (lives : Lives before) : Lives after := by
  cases step with
  | quiet same => exact lives.quiet same
  | resync given left => exact lives.frame rfl rfl (Nat.le_refl _) rfl (by simp [deedOf, relays])
  | request sinkfd pac _ =>
      exact
        { requests := lives.requests.receive rfl rfl
          responses := lives.responses.frame (by simp [relays]) (Nat.le_succ _) }
  | response sinkfd pac _ =>
      exact
        { requests := lives.requests.frame (by simp [deedOf]) (Nat.le_succ _)
          responses := lives.responses.receive rfl }
  | topicMsg sinkfd pac _ => exact lives.frame rfl rfl (Nat.le_succ _) rfl (by simp [deedOf, relays])

theorem Lives.handleStep (step : HandleStep host before after) (lives : Lives before) : Lives after := by
  cases step with
  | quiet same => exact lives.quiet same
  | timeout earlier req later place waiting _ =>
      have requests := lives.requests
      rw [place] at requests
      exact
        { requests := requests.answer (Or.inr ⟨waiting, by decide⟩) rfl
          responses := lives.responses.frame (by simp [relays]) (Nat.le_refl _) }
  | notFound earlier req later place fresh _ =>
      have requests := lives.requests
      rw [place] at requests
      rw [registerSource_frame]
      exact
        { requests := requests.answer (Or.inl ⟨fresh, rfl⟩) rfl
          responses := lives.responses.frame (by simp [relays]) (Nat.le_refl _) }
  | forward earlier req later dst place fresh _ =>
      have requests := lives.requests
      rw [place] at requests
      rw [registerSource_frame]
      exact
        { requests := requests.forward fresh rfl _
          responses := lives.responses.frame (by simp [relays]) (Nat.le_refl _) }
  | response earlier resp later place waiting =>
      have responses := lives.responses
      rw [place] at responses
      rcases touchDestination_frame host (relayResponse before resp) resp with ⟨reads, _, touched⟩
      rw [touched]
      rcases relayResponse_cases before resp with ⟨_, same⟩ | ⟨front, req, back, listed, _, relayed⟩
      · rw [same]
        have unrelayed := responses.handle (Or.inl rfl)
        rw [List.append_nil] at unrelayed
        exact { requests := lives.requests, responses := unrelayed }
      · rw [relayed]
        have requests := lives.requests
        rw [listed] at requests
        have forwarded : req.state = .waitResponse := waiting req (by
          rw [listed]
          exact List.mem_append_right _ List.mem_cons_self)
        exact
          { requests := requests.answer (Or.inr ⟨forwarded, by simp⟩) rfl
            responses := responses.handle (Or.inr ⟨req, _, rfl⟩) }
  | topicMsg earlier tmsg later place _ =>
      rcases applyTopicMsg_effect before tmsg with ⟨topics, calls, stopped, effect, _, _, allowed⟩
      rw [effect]
      refine lives.frame rfl rfl (Nat.le_refl _) (List.append_assoc _ _ _) ?_
      intro event member
      rcases List.mem_append.mp member with sent | handled
      · rcases List.mem_map.mp sent with ⟨call, listed, rfl⟩
        rcases (allowed call listed).1 with rfl | rfl | ⟨fd, rfl⟩ <;> exact ⟨rfl, fun _ => rfl⟩
      · rw [List.mem_singleton.mp handled]
        exact ⟨rfl, fun _ => rfl⟩
  | dropStation _ _ _ _ _ => exact lives.frame rfl rfl (Nat.le_refl _) (List.append_nil _).symm (by simp)

end Steps

theorem apibusNew_lives : Lives apibusNew where
  requests :=
    { distinct := List.nodup_nil
      pending := by simp [apibusNew]
      past := fun _ _ => Or.inl rfl
      unborn := fun _ _ => rfl }
  responses :=
    { distinct := List.nodup_nil
      born := by simp [apibusNew]
      unused := by simp [apibusNew]
      once := fun _ => Nat.zero_le 1
      unborn := fun _ _ => rfl
      arrived := by simp [apibusNew]
      genuine := by simp [apibusNew] }

theorem busRun_lives (host : Host) (inputs : List BusInput) : Lives (busRun host apibusNew inputs) :=
  busRun_invariant Lives (fun _ _ _ step => Lives.sinkStep step) (fun _ _ step => Lives.parseStep step)
    (fun _ _ step => Lives.handleStep step) inputs apibusNew apibusNew_lives

/-- A deed is done for a request that was received. -/
private theorem received_of_deedOf {trace : List Event} {req : ApiRequest} {node : Nat}
    (member : (⟨.received, req⟩ : Deed) ∈ history node trace) :
    ∃ pos, .receivedRequest pos ∈ trace ∧ asReceived pos = req ∧ pos.node = node := by
  rcases List.mem_filter.mp member with ⟨done, number⟩
  rcases List.mem_filterMap.mp done with ⟨event, listed, deed⟩
  simp only [decide_eq_true_eq] at number
  have other : ∀ {kind : DeedKind} {pos : ApiRequest}, kind ≠ .received ->
      some (⟨kind, asReceived pos⟩ : Deed) = some ⟨.received, req⟩ -> False := by
    intro kind pos different same
    cases same
    exact different rfl
  cases event with
  | receivedRequest pos =>
      cases deed
      exact ⟨pos, listed, rfl, number⟩
  | send call sentTo =>
      exfalso
      cases call with
      | requestTimeout pos => exact other (by simp) deed
      | stationNotFound pos => exact other (by simp) deed
      | forward pos dst => exact other (by simp) deed
      | relay resp pos => exact other (by simp) deed
      | subOk tmsg => cases deed
      | unsubOk tmsg => cases deed
      | publish tmsg fd => cases deed
  | opened fd => cases deed
  | closed fd => cases deed
  | receivedResponse resp => cases deed
  | receivedTopicMsg tmsg => cases deed
  | resync given left => cases deed
  | handledTopicMsg tmsg => cases deed

/-- After any run, a request that was received is either pending, received or
received and forwarded, or it is off the list and its history ends with its
one answer, given to the descriptor it came in on.  Nothing is done for a
request that was not received, a response that is relayed was received and
answers one request only, and what `handle_request` leaves on the list has
been forwarded. -/
theorem request_lifecycle (host : Host) (inputs : List BusInput) :
    (∀ req, .receivedRequest req ∈ (busRun host apibusNew inputs).trace ->
      (∃ pos ∈ (busRun host apibusNew inputs).bus.requests, asReceived pos = asReceived req ∧
        Course (asReceived req) (phaseOf pos.state) (history req.node (busRun host apibusNew inputs).trace)) ∨
      (∀ pos ∈ (busRun host apibusNew inputs).bus.requests, pos.node ≠ req.node) ∧
        Course (asReceived req) .over (history req.node (busRun host apibusNew inputs).trace)) ∧
    (∀ node, history node (busRun host apibusNew inputs).trace ≠ [] ->
      ∃ req, .receivedRequest req ∈ (busRun host apibusNew inputs).trace ∧ req.node = node) ∧
    ((busRun host apibusNew inputs).bus.requests.map (·.node)).Nodup ∧
    (∀ node, (busRun host apibusNew inputs).trace.countP (relays node) ≤ 1) ∧
    (∀ resp req sentTo, .send (.relay resp req) sentTo ∈ (busRun host apibusNew inputs).trace ->
      .receivedResponse resp ∈ (busRun host apibusNew inputs).trace) ∧
    ∀ world, ∀ req ∈ (handleRequest host world).bus.requests, req.state = .waitResponse := by
  have lives := busRun_lives host inputs
  generalize busRun host apibusNew inputs = world at lives ⊢
  refine ⟨?_, ?_, lives.requests.distinct, lives.responses.once, lives.responses.genuine, handleRequest_waiting⟩
  · intro req received
    have done : (⟨.received, asReceived req⟩ : Deed) ∈ history req.node world.trace :=
      List.mem_filter.mpr ⟨List.mem_filterMap.mpr ⟨_, received, rfl⟩, by simp [asReceived]⟩
    -- the history names one request only
    have same : ∀ {pos : ApiRequest} {phase : Phase}, Course pos phase (history req.node world.trace) ->
        pos = asReceived req := by
      intro pos phase course
      generalize history req.node world.trace = deeds at course done
      have named : asReceived req = pos := by cases course <;> simpa using done
      exact named.symm
    by_cases pending : req.node ∈ world.bus.requests.map (·.node)
    · rcases List.mem_map.mp pending with ⟨pos, listed, number⟩
      have course := lives.requests.pending pos listed
      rw [number] at course
      have equal := same course
      rw [equal] at course
      exact Or.inl ⟨pos, listed, equal, course⟩
    · refine Or.inr ⟨fun pos listed number => pending (List.mem_map.mpr ⟨pos, listed, number⟩), ?_⟩
      rcases lives.requests.past req.node pending with none | ⟨pos, course⟩
      · rw [none] at done
        exact absurd done List.not_mem_nil
      · have equal := same course
        rw [equal] at course
        exact course
  · intro node something
    by_cases pending : node ∈ world.bus.requests.map (·.node)
    · rcases List.mem_map.mp pending with ⟨pos, listed, rfl⟩
      rcases received_of_deedOf (lives.requests.pending pos listed).begins with ⟨req, received, _, number⟩
      exact ⟨req, received, number⟩
    · rcases lives.requests.past node pending with none | ⟨pos, course⟩
      · exact absurd none something
      · rcases received_of_deedOf course.begins with ⟨req, received, _, number⟩
        exact ⟨req, received, number⟩

end Bus
end Extlib
