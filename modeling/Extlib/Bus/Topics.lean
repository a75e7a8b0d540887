import Extlib.Bus.Handlers

namespace Extlib
namespace Bus

open Text Srrp Machine

/-!
# The topic table

What `topic_sub_handler`, `topic_unsub_handler` and `topic_pub_handler` should
do to a table in which every header stands once, and the tables for which they
do it.  The three compare headers in three ways: the first through a pointer
that is still null, the second with `strcmp`, the third over the length of the
header received.
-/

/-- The topic of a header, as `strcmp` finds it. -/
def topicOf (world : World) (header : CString) : Option ApiTopic :=
  world.bus.topics.find? (·.header = header)

/-- The descriptors recorded for a header. -/
def recordedFds (world : World) (header : CString) : List Fd :=
  ((topicOf world header).map (·.fds)).getD []

/-! ## Messages and tables for the examples below -/

private theorem shortHeader_nulFree : (0 : UInt8) ∉ ascii "/a" := by decide

private def shortHeader : CString := ⟨ascii "/a", shortHeader_nulFree⟩

private def longHeader : CString := ⟨ascii "/ab", by decide⟩

private theorem anyData_nulFree : (0 : UInt8) ∉ ascii "{}" := by decide

private def anyData : CString := ⟨ascii "{}", anyData_nulFree⟩

/-- A topic packet received on a descriptor. -/
private def received (call : WriteCall) (short : call.header.length < srrpHeaderLen) (num : Nat) : ApiTopicMsg :=
  ⟨call.written short, ⟨num, num⟩, 0⟩

private def withTopics (topics : List ApiTopic) : World := apibusNew.setTopics topics

/-! ## Subscribing -/

/-- The handler returns, and the topic of the header has the descriptor unless
it was full.  No other topic changes; headers stay distinct, and topics within
their arrays. -/
structure Subscribed (before : World) (tmsg : ApiTopicMsg) (after : World) : Prop where
  completes : after.stopped = none
  recorded : ∃ topic ∈ after.bus.topics, topic.header = tmsg.pac.header ∧
    (tmsg.fd ∈ topic.fds ∨ ∃ old ∈ before.bus.topics, old.header = tmsg.pac.header ∧
      old.fds.length = apiTopicSubscribeMax)
  others : ∀ topic, topic.header ≠ tmsg.pac.header -> (topic ∈ after.bus.topics ↔ topic ∈ before.bus.topics)
  distinct : (after.bus.topics.map (·.header)).Nodup
  bounded : ∀ topic ∈ after.bus.topics, topic.fds.length ≤ apiTopicSubscribeMax

/-- A header fits the array of a topic. -/
private theorem slice_header (pac : SrrpPacket) : pac.header.slice 0 (apiHeaderSize - 1) = pac.header := by
  have fits := pac.headerFits
  simp only [CString.length, srrpHeaderLen] at fits
  ext1
  rw [CString.slice_chars, List.drop_zero]
  exact List.take_of_length_le (by simp only [apiHeaderSize]; omega)

/-- The first subscription creates its topic. -/
theorem topicSubHandler_first {world : World} (tmsg : ApiTopicMsg) (empty : world.bus.topics = []) :
    topicSubHandler world tmsg = apibusSend (world.setTopics [⟨tmsg.pac.header, [tmsg.fd]⟩]) (.subOk tmsg) := by
  unfold topicSubHandler
  rw [empty]
  dsimp only
  rw [slice_header]

/-- A subscription is served exactly when there is no topic yet. -/
theorem topicSubHandler_subscribed_iff {world : World} (running : world.stopped = none) (tmsg : ApiTopicMsg) :
    Subscribed world tmsg (topicSubHandler world tmsg) ↔ world.bus.topics = [] := by
  constructor
  · intro subscribed
    cases table : world.bus.topics with
    | nil => rfl
    | cons topic topics =>
        have completes := subscribed.completes
        unfold topicSubHandler at completes
        rw [table] at completes
        cases completes
  · intro empty
    rw [topicSubHandler_first tmsg empty]
    constructor
    case completes => exact running
    case recorded => exact ⟨_, List.mem_singleton_self _, rfl, Or.inl (List.mem_singleton_self _)⟩
    case others =>
      intro topic other
      rw [empty]
      refine iff_of_false (fun listed => other ?_) List.not_mem_nil
      rw [List.mem_singleton.mp listed]
    case distinct => exact List.nodup_singleton _
    case bounded =>
      intro topic listed
      rw [List.mem_singleton.mp listed]
      exact (by decide : 1 ≤ apiTopicSubscribeMax)

theorem topicSubHandler_subscribed_iff_first :
    Subscribed apibusNew (received (.subscribe shortHeader anyData) (by decide) 4)
      (topicSubHandler apibusNew (received (.subscribe shortHeader anyData) (by decide) 4)) :=
  (topicSubHandler_subscribed_iff rfl _).mpr rfl

/-- The second subscription reads the header of a topic that is still null. -/
theorem secondSubscription_not_subscribed : ¬ ∀ (world : World) (tmsg : ApiTopicMsg), world.stopped = none ->
    (world.bus.topics.map (·.header)).Nodup ->
    (∀ topic ∈ world.bus.topics, topic.fds.length ≤ apiTopicSubscribeMax) ->
    tmsg.pac.leader = srrpSubscribeLeader -> tmsg.pac.header.length < srrpHeaderLen ->
    Subscribed world tmsg (topicSubHandler world tmsg) := by
  intro always
  have subscribed := always (withTopics [⟨shortHeader, [⟨4, 4⟩]⟩])
    (received (.subscribe longHeader anyData) (by decide) 5) rfl (by decide) (by decide) (by decide) (by decide)
  cases subscribed.completes

/-! ## Unsubscribing -/

/-- From a topic with the header every occurrence of the number is gone, and
every other number is there as often as before; any other topic is as it was. -/
def RemovedFrom (header : CString) (num : Nat) (old new : ApiTopic) : Prop :=
  if old.header = header then
    new.header = header ∧
      ∀ other, (new.fds.map (·.num)).count other = if other = num then 0 else (old.fds.map (·.num)).count other
  else new = old

/-- Nothing has happened but this removal and the answer. -/
structure Unsubscribed (before : World) (tmsg : ApiTopicMsg) (after : World) : Prop where
  frame : after = { before.setTopics after.bus.topics with trace := after.trace }
  removed : List.Forall₂ (RemovedFrom tmsg.pac.header tmsg.fd.num) before.bus.topics after.bus.topics

/-- Every occurrence of the number has at least as many entries behind it as it
has occurrences in front. -/
def RoomBehind (num : Nat) (fds : List Fd) : Prop :=
  ∀ i, ∀ inside : i < fds.length, fds[i].num = num -> (fds.take i).countP (·.num = num) + i < fds.length

instance (num : Nat) (fds : List Fd) : Decidable (RoomBehind num fds) :=
  inferInstanceAs (Decidable (∀ i, ∀ inside : i < fds.length, fds[i].num = num ->
    (fds.take i).countP (·.num = num) + i < fds.length))

section Removal

variable {num : Nat}

private theorem removeFd_beyond {i : Nat} {fds : List Fd} (beyond : fds.length ≤ i) :
    ∀ rounds, removeFd num rounds i fds = fds
  | 0 => rfl
  | rounds + 1 => by rw [removeFd, List.getElem?_eq_none beyond]

private theorem getElem?_behind (before : List Fd) (fd : Fd) (tail : List Fd) :
    (before ++ fd :: tail)[before.length]? = some fd := by
  rw [List.getElem?_append_right (Nat.le_refl _), Nat.sub_self, List.getElem?_cons_zero]

/-- A round passes an entry with another number, -/
private theorem removeFd_passes {fd : Fd} (other : fd.num ≠ num) (rounds : Nat) (before tail : List Fd) :
    removeFd num (rounds + 1) before.length (before ++ fd :: tail) =
      removeFd num rounds (before ++ [fd]).length (before ++ [fd] ++ tail) := by
  rw [removeFd, getElem?_behind]
  dsimp only
  rw [if_neg other, List.length_append, List.length_singleton, List.append_assoc, List.singleton_append]

/-- puts the last entry in the place of one to remove, and goes on behind it, -/
private theorem removeFd_replaces {fd : Fd} (here : fd.num = num) (rounds : Nat) (before middle : List Fd) (last : Fd) :
    removeFd num (rounds + 1) before.length (before ++ fd :: (middle ++ [last])) =
      removeFd num rounds (before ++ [last]).length (before ++ [last] ++ middle) := by
  have lastEntry : (before ++ fd :: (middle ++ [last])).getLastD fd = last := by
    rw [← List.cons_append, ← List.append_assoc, List.getLastD_concat]
  have replaced : ((before ++ fd :: (middle ++ [last])).set before.length last).dropLast =
      before ++ [last] ++ middle := by
    rw [List.set_append_right _ _ (Nat.le_refl _), Nat.sub_self, List.set_cons_zero, ← List.cons_append,
      ← List.append_assoc, List.dropLast_concat, List.append_assoc, List.singleton_append]
  rw [removeFd, getElem?_behind]
  dsimp only
  rw [if_pos here, lastEntry, replaced, List.length_append, List.length_singleton]

/-- or drops it where it is the last one. -/
private theorem removeFd_drops {fd : Fd} (here : fd.num = num) (rounds : Nat) (before : List Fd) :
    removeFd num (rounds + 1) before.length (before ++ [fd]) = before := by
  rw [removeFd, getElem?_behind]
  dsimp only
  rw [if_pos here, List.set_append_right _ _ (Nat.le_refl _), Nat.sub_self, List.set_cons_zero,
    List.dropLast_concat]
  exact removeFd_beyond (Nat.le_succ _) rounds

/-- An entry that stays. -/
theorem roomBehind_cons {fd : Fd} {fds : List Fd} (other : fd.num ≠ num) :
    RoomBehind num (fd :: fds) ↔ RoomBehind num fds := by
  have count : ∀ i, ((fd :: fds).take (i + 1)).countP (·.num = num) = (fds.take i).countP (·.num = num) := by
    intro i
    rw [List.take_succ_cons, List.countP_cons_of_neg (by simpa using other)]
  constructor
  · intro room i inside here
    have behind := room (i + 1) (Nat.succ_lt_succ inside) here
    rw [count, List.length_cons] at behind
    omega
  · intro room i inside here
    cases i with
    | zero => exact absurd here other
    | succ i =>
        have behind := room i (Nat.lt_of_succ_lt_succ inside) here
        rw [count, List.length_cons]
        omega

/-- An entry that is replaced by the last one. -/
theorem roomBehind_replaced {fd last : Fd} {fds : List Fd} (here : fd.num = num) :
    RoomBehind num (fd :: (fds ++ [last])) ↔ last.num ≠ num ∧ RoomBehind num fds := by
  have count : ∀ i ≤ fds.length, ((fd :: (fds ++ [last])).take (i + 1)).countP (·.num = num) =
      (fds.take i).countP (·.num = num) + 1 := by
    intro i inside
    rw [List.take_succ_cons, List.countP_cons_of_pos (by simpa using here), List.take_append_of_le_length inside]
  have length : (fd :: (fds ++ [last])).length = fds.length + 2 := by simp
  constructor
  · intro room
    constructor
    · intro same
      have behind := room (fds.length + 1) (by omega) (by simpa using same)
      rw [count _ (Nat.le_refl _), length] at behind
      omega
    · intro i inside match_
      have behind := room (i + 1) (by omega) (by
        rw [List.getElem_cons_succ, List.getElem_append_left inside]
        exact match_)
      rw [count i (Nat.le_of_lt inside), length] at behind
      omega
  · rintro ⟨different, room⟩ i inside match_
    cases i with
    | zero =>
        rw [length]
        simp
    | succ i =>
        rw [List.getElem_cons_succ] at match_
        rw [length] at inside
        by_cases before : i < fds.length
        · rw [List.getElem_append_left before] at match_
          have behind := room i before match_
          rw [count i (Nat.le_of_lt before), length]
          omega
        · refine absurd ?_ different
          have end_ : i = fds.length := by omega
          subst end_
          simpa using match_

/-- The loop leaves what it has passed alone.  Of the rest it keeps the other
numbers as often as they were, and it keeps none of those to remove exactly
when there is room behind each. -/
theorem removeFd_spec (rest : List Fd) :
    ∃ left : List Fd,
      (∀ rounds before, rest.length ≤ rounds ->
        removeFd num rounds before.length (before ++ rest) = before ++ left) ∧
      (∀ other, other ≠ num -> (left.map (·.num)).count other = (rest.map (·.num)).count other) ∧
      ((left.map (·.num)).count num = 0 ↔ RoomBehind num rest) := by
  -- the last entry moves to the front, so the recursion is on the length
  induction size : rest.length using Nat.strong_induction_on generalizing rest with
  | _ size' inductionHypothesis =>
      subst size
      cases rest with
      | nil =>
          refine ⟨[], fun rounds before _ => ?_, fun _ _ => rfl, iff_of_true rfl fun i inside => by simp at inside⟩
          exact removeFd_beyond (by rw [List.append_nil]) rounds
      | cons fd tail =>
          by_cases here : fd.num = num
          · rcases List.eq_nil_or_concat tail with rfl | ⟨middle, last, rfl⟩
            · refine ⟨[], ?_, ?_, iff_of_true rfl ?_⟩
              · intro rounds before fits
                obtain ⟨fewer, rfl⟩ := Nat.exists_eq_succ_of_ne_zero (Nat.ne_of_gt fits)
                rw [removeFd_drops here, List.append_nil]
              · intro other different
                rw [List.map_singleton, List.count_singleton, here]
                simp [different.symm]
              · intro i inside _
                have zero : i = 0 := by simpa using inside
                subst zero
                simp
            · rw [List.concat_eq_append]
              rcases inductionHypothesis middle.length (by simp) middle rfl with ⟨left, runs, kept, cleared⟩
              refine ⟨last :: left, ?_, ?_, ?_⟩
              · intro rounds before fits
                simp only [List.length_cons, List.length_append, List.length_nil] at fits
                obtain ⟨fewer, rfl⟩ : ∃ fewer, rounds = fewer + 1 := ⟨rounds - 1, by omega⟩
                rw [removeFd_replaces here, runs fewer _ (by omega), List.append_assoc, List.singleton_append]
              · intro other different
                have notHere : fd.num ≠ other := here.symm ▸ different.symm
                rw [List.map_cons, List.count_cons, kept other different, List.map_cons,
                  List.count_cons_of_ne notHere, List.map_append, List.count_append, List.map_singleton,
                  List.count_singleton]
              · rw [roomBehind_replaced here, ← cleared, List.map_cons, List.count_cons]
                by_cases same : last.num = num
                · simp [same]
                · simp [same]
          · rcases inductionHypothesis tail.length (by simp) tail rfl with ⟨left, runs, kept, cleared⟩
            refine ⟨fd :: left, ?_, ?_, ?_⟩
            · intro rounds before fits
              simp only [List.length_cons] at fits
              obtain ⟨fewer, rfl⟩ : ∃ fewer, rounds = fewer + 1 := ⟨rounds - 1, by omega⟩
              rw [removeFd_passes here, runs fewer _ (by omega), List.append_assoc, List.singleton_append]
            · intro other different
              rw [List.map_cons, List.count_cons, kept other different, List.map_cons, List.count_cons]
            · rw [roomBehind_cons here, ← cleared, List.map_cons, List.count_cons_of_ne here]

/-- The numbers that the loop of the handler leaves. -/
theorem removeFd_removed_iff (num : Nat) (fds : List Fd) :
    (∀ other, ((removeFd num fds.length 0 fds).map (·.num)).count other =
      if other = num then 0 else (fds.map (·.num)).count other) ↔ RoomBehind num fds := by
  rcases @removeFd_spec num fds with ⟨left, runs, kept, cleared⟩
  have result : removeFd num fds.length 0 fds = left := runs fds.length [] (Nat.le_refl _)
  rw [result]
  constructor
  · intro removed
    apply cleared.mp
    rw [removed num, if_pos rfl]
  · intro room other
    by_cases same : other = num
    · rw [if_pos same, same]
      exact cleared.mpr room
    · rw [if_neg same]
      exact kept other same

end Removal

/-- With distinct headers an unsubscription does what it should exactly when
there is a topic with the header, and room behind each of the occurrences of
its descriptor there. -/
theorem topicUnsubHandler_unsubscribed_iff {world : World} (running : world.stopped = none)
    (distinct : (world.bus.topics.map (·.header)).Nodup) (tmsg : ApiTopicMsg) :
    Unsubscribed world tmsg (topicUnsubHandler world tmsg) ↔
      ∃ topic ∈ world.bus.topics, topic.header = tmsg.pac.header ∧ RoomBehind tmsg.fd.num topic.fds := by
  unfold topicUnsubHandler
  cases found : world.bus.topics.find? (·.header = tmsg.pac.header) with
  | none =>
      refine iff_of_false ?_ ?_
      · intro unsubscribed
        have still := congrArg World.stopped unsubscribed.frame
        simp only [World.stop, World.setTopics, running] at still
        cases still
      · rintro ⟨topic, listed, same, _⟩
        simpa [same] using List.find?_eq_none.mp found topic listed
  | some topic =>
      have listed := List.mem_of_find?_eq_some found
      have same : topic.header = tmsg.pac.header := by simpa using List.find?_some found
      have only : ∀ other ∈ world.bus.topics, other.header = tmsg.pac.header -> other = topic :=
        fun other member header => List.inj_on_of_nodup_map distinct member listed (header.trans same.symm)
      have changed : ∀ fds : List Fd, RemovedFrom tmsg.pac.header tmsg.fd.num topic { topic with fds := fds } ↔
          ∀ other, (fds.map (·.num)).count other =
            if other = tmsg.fd.num then 0 else (topic.fds.map (·.num)).count other := by
        intro fds
        rw [RemovedFrom, if_pos same]
        exact and_iff_right same
      dsimp only
      rw [modify_findIdx ApiTopic.header tmsg.pac.header _ distinct]
      constructor
      · intro unsubscribed
        refine ⟨topic, listed, same, ?_⟩
        have removed := List.forall₂_map_right_iff.mp unsubscribed.removed
        have here := List.forall₂_same.mp removed topic listed
        rw [if_pos same, changed] at here
        exact (removeFd_removed_iff _ _).mp here
      · rintro ⟨other, member, header, room⟩
        rw [only other member header] at room
        refine ⟨rfl, List.forall₂_map_right_iff.mpr (List.forall₂_same.mpr fun old present => ?_)⟩
        by_cases here : old.header = tmsg.pac.header
        · rw [if_pos here, only old present here, changed]
          exact (removeFd_removed_iff _ _).mpr room
        · rw [if_neg here, RemovedFrom, if_neg here]

/-- The first of two descriptors goes. -/
theorem topicUnsubHandler_unsubscribed_iff_two :
    Unsubscribed (withTopics [⟨shortHeader, [⟨4, 4⟩, ⟨5, 5⟩]⟩])
      (received (.unsubscribe shortHeader) (by decide) 4)
      (topicUnsubHandler (withTopics [⟨shortHeader, [⟨4, 4⟩, ⟨5, 5⟩]⟩])
        (received (.unsubscribe shortHeader) (by decide) 4)) :=
  (topicUnsubHandler_unsubscribed_iff rfl (by decide) _).mpr ⟨_, List.mem_cons_self, rfl, by decide⟩

/-- Where no topic has the header the loop leaves a pointer to the head of the
list, taken for a topic. -/
theorem unknownHeader_not_unsubscribed : ¬ ∀ (world : World) (tmsg : ApiTopicMsg), world.stopped = none ->
    (world.bus.topics.map (·.header)).Nodup -> tmsg.pac.leader = srrpUnsubscribeLeader ->
    Unsubscribed world tmsg (topicUnsubHandler world tmsg) := by
  intro always
  have unsubscribed := always apibusNew (received (.unsubscribe shortHeader) (by decide) 4) rfl (by decide)
    (by decide)
  cases congrArg World.stopped unsubscribed.frame

/-! ## Publishing -/

/-- The bytes go to the descriptors recorded for the header, once for each, and
to no other; the topic selected is the one that `topic_unsub_handler` selects,
and the one that a subscription which is served has put its descriptor into. -/
structure Published (before : World) (tmsg : ApiTopicMsg) (after : World) : Prop where
  sent : after =
    { before with
      trace := before.trace ++ (recordedFds before tmsg.pac.header).map fun fd => sendEvent before (.publish tmsg fd) }
  asUnsubscribed : findTopic before tmsg.pac.header tmsg.pac.headerLen.toNat = topicOf before tmsg.pac.header
  asSubscribed : ∀ sub : ApiTopicMsg, sub.pac.header = tmsg.pac.header ->
    (topicSubHandler before sub).stopped = none ->
    ∃ topic, findTopic (topicSubHandler before sub) tmsg.pac.header tmsg.pac.headerLen.toNat = some topic ∧
      topic.header = tmsg.pac.header ∧ sub.fd ∈ topic.fds

/-- A topic whose header begins with the given one has just that header, or
stands behind the topic that has it. -/
def NoLongerInFront (header : CString) (topics : List ApiTopic) : Prop :=
  ∀ i, ∀ inside : i < topics.length, header.chars <+: topics[i].header.chars ->
    topics[i].header = header ∨ ∃ earlier ∈ topics.take i, earlier.header = header

instance (header : CString) (topics : List ApiTopic) : Decidable (NoLongerInFront header topics) :=
  inferInstanceAs (Decidable (∀ i, ∀ inside : i < topics.length, header.chars <+: topics[i].header.chars ->
    topics[i].header = header ∨ ∃ earlier ∈ topics.take i, earlier.header = header))

/-- `memcmp` over the length of the second header looks whether the first
begins with it. -/
theorem headersAgree_iff (left right : CString) :
    headersAgree right.length left right ↔ right.chars <+: left.chars := by
  have whole : (right.chars ++ List.replicate right.length 0).take right.length = right.chars := List.take_left
  rw [headersAgree, whole, decide_eq_true_iff]
  constructor
  · intro agree
    by_cases longer : right.length ≤ left.chars.length
    · rw [List.take_append_of_le_length longer] at agree
      exact agree ▸ List.take_prefix _ _
    · -- the array shows a NUL where the header received has none
      refine absurd ?_ right.nulFree
      rw [← agree, List.take_append, List.mem_append]
      refine Or.inr ?_
      rw [List.take_replicate, List.mem_replicate]
      exact ⟨by omega, rfl⟩
  · rintro ⟨rest, split⟩
    rw [← split, List.append_assoc]
    exact List.take_left

theorem topicPubHandler_eq (world : World) (tmsg : ApiTopicMsg) :
    topicPubHandler world tmsg =
      { world with
        trace := world.trace ++
          (((findTopic world tmsg.pac.header tmsg.pac.headerLen.toNat).map (·.fds)).getD []).map
            fun fd => sendEvent world (.publish tmsg fd) } := by
  unfold topicPubHandler
  cases findTopic world tmsg.pac.header tmsg.pac.headerLen.toNat with
  | none => simp
  | some topic =>
      dsimp only
      rw [publish_frame, List.map_map]
      rfl

/-- For a packet whose `header_len` is the length of its header, as the reader
counts it, publishing is right exactly when no topic with a longer header that
begins with this one stands in front. -/
theorem topicPubHandler_published_iff (world : World) {tmsg : ApiTopicMsg}
    (counted : tmsg.pac.headerLen.toNat = tmsg.pac.header.length) :
    Published world tmsg (topicPubHandler world tmsg) ↔ NoLongerInFront tmsg.pac.header world.bus.topics := by
  have selects : findTopic world tmsg.pac.header tmsg.pac.headerLen.toNat = topicOf world tmsg.pac.header ↔
      NoLongerInFront tmsg.pac.header world.bus.topics := by
    rw [findTopic, topicOf, counted, find_eq_find_iff]
    · simp only [headersAgree_iff, decide_eq_true_iff, NoLongerInFront]
    · intro topic same
      rw [headersAgree_iff, of_decide_eq_true same]
  constructor
  · exact fun published => selects.mp published.asUnsubscribed
  · intro none_in_front
    have selected := selects.mpr none_in_front
    refine ⟨?_, selected, ?_⟩
    · rw [topicPubHandler_eq, selected]
      rfl
    · intro sub same served
      cases table : world.bus.topics with
      | cons topic topics =>
          unfold topicSubHandler at served
          rw [table] at served
          cases served
      | nil =>
          refine ⟨⟨sub.pac.header, [sub.fd]⟩, ?_, same, List.mem_singleton_self _⟩
          have agree : headersAgree tmsg.pac.headerLen.toNat sub.pac.header tmsg.pac.header := by
            rw [counted, headersAgree_iff, same]
          rw [topicSubHandler_first sub table]
          exact List.find?_cons_of_pos agree

theorem topicPubHandler_published_iff_two :
    Published (withTopics [⟨shortHeader, [⟨4, 4⟩]⟩, ⟨longHeader, [⟨5, 5⟩]⟩])
      (received (.publish shortHeader anyData) (by decide) 6)
      (topicPubHandler (withTopics [⟨shortHeader, [⟨4, 4⟩]⟩, ⟨longHeader, [⟨5, 5⟩]⟩])
        (received (.publish shortHeader anyData) (by decide) 6)) :=
  (topicPubHandler_published_iff _ (by decide)).mpr (by decide)

/-- What is published under a header reaches the subscribers of a longer one. -/
theorem longerHeader_not_published : ¬ ∀ (world : World) (tmsg : ApiTopicMsg),
    (world.bus.topics.map (·.header)).Nodup -> tmsg.pac.leader = srrpPublishLeader ->
    tmsg.pac.headerLen.toNat = tmsg.pac.header.length -> Published world tmsg (topicPubHandler world tmsg) := by
  intro always
  have published := always (withTopics [⟨longHeader, [⟨5, 5⟩]⟩])
    (received (.publish shortHeader anyData) (by decide) 6) (by decide) (by decide) (by decide)
  have sent := congrArg World.trace published.sent
  revert sent
  decide +kernel

end Bus
end Extlib
