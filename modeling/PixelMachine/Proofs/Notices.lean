import Mathlib.Data.List.Induction
import Mathlib.Data.List.Nodup
import Mathlib.Data.List.TakeWhile
import PixelMachine.Event

/-! What observers go through: they subscribe, they hang up or close, and events are announced to them.
Whoever is registered is called at every announcement, in the order of the subscriptions, but for the
channels that closed; whoever closed is removed by the next announcement, and nobody else is. -/
namespace PixelMachine

/-- What can happen to observers, who are numbered in the order in which they subscribe. An observer
closes because it is told to hang up, or by itself. -/
inductive Notice where
  | subscribed (channel : Bool)
  | hungUp (id : Nat)
  | closed (id : Nat)
  | announced (e : Event)
  deriving DecidableEq

namespace Notice

/-- The event that is announced, if one is. -/
def event? : Notice → Option Event
  | .announced e => some e
  | _ => none

/-- The events announced, in order. -/
def events (ns : List Notice) : List Event := ns.filterMap event?

/-- If an observer subscribes, whether it is a channel. -/
def channel? : Notice → Option Bool
  | .subscribed channel => some channel
  | _ => none

/-- An observer closes. -/
def closes (id : Nat) : Notice → Bool
  | .hungUp k | .closed k => k == id
  | _ => false

/-- All who have subscribed, by whether they are channels. -/
def subscribers (ns : List Notice) : List Bool := ns.filterMap channel?

/-- A subscriber is a channel. -/
def Channel (ns : List Notice) (id : Nat) : Prop := (subscribers ns)[id]? = some true

/-- An observer has closed after it subscribed. -/
def Closed (ns : List Notice) (id : Nat) : Prop :=
  ∃ older n newer, ns = older ++ n :: newer ∧ n.closes id = true ∧ id < (subscribers older).length

/-- Something was announced after an observer closed. -/
def Dismissed (ns : List Notice) (id : Nat) : Prop :=
  ∃ older n newer, ns = older ++ n :: newer ∧ (∃ e, n = .announced e) ∧ Closed older id

/-- An observer has subscribed and is not dismissed yet. -/
def Registered (ns : List Notice) (id : Nat) : Prop :=
  id < (subscribers ns).length ∧ ¬ Dismissed ns id

/-- An observer is registered and no channel that has closed. -/
def Hears (ns : List Notice) (id : Nat) : Prop :=
  Registered ns id ∧ ¬ (Channel ns id ∧ Closed ns id)

/-- Which observers are called with what: at each announcement all who hear it, in the order of their
subscriptions, and before anything else is announced. -/
inductive Calls : List Notice → List (Nat × Event) → Prop where
  | start : Calls [] []
  | silent {ns : List Notice} {n : Notice} {cs : List (Nat × Event)} : Calls ns cs → n.event? = none →
      Calls (ns ++ [n]) cs
  | announced {ns : List Notice} {cs : List (Nat × Event)} {audience : List Nat} (e : Event) :
      Calls ns cs → audience.Pairwise (· < ·) → (∀ id, id ∈ audience ↔ Hears ns id) →
      Calls (ns ++ [.announced e]) (cs ++ audience.map (·, e))

/-- What one of the observers heard in these calls. -/
def heardIn (cs : List (Nat × Event)) (id : Nat) : List Event := (cs.filter (·.1 = id)).map (·.2)

/-- What comes before an observer closes. -/
def whileOpen (id : Nat) (after : List Notice) : List Notice := after.takeWhile fun n => !n.closes id

/-- What comes once it has closed. -/
def onceClosed (id : Nat) (after : List Notice) : List Notice := after.dropWhile fun n => !n.closes id

/-- An observer does not close. -/
def StaysOpen (id : Nat) (after : List Notice) : Prop := ∀ n ∈ after, n.closes id = false

/-- What an observer hears of that which comes after its subscription: what is announced before it
closes and, unless it is a channel, the event that finds it closed. -/
def audible (channel : Bool) (id : Nat) (after : List Notice) : List Event :=
  events (whileOpen id after) ++ if channel then [] else (events (onceClosed id after)).take 1

/-- A place in a longer list is one of the shorter list or the new end. -/
theorem exists_split_concat {α : Type} {P : List α → α → Prop} {xs : List α} {x : α} :
    (∃ older y newer, xs ++ [x] = older ++ y :: newer ∧ P older y) ↔
      (∃ older y newer, xs = older ++ y :: newer ∧ P older y) ∨ P xs x := by
  constructor
  · rintro ⟨older, y, newer, hsplit, hp⟩
    rcases List.eq_nil_or_concat newer with rfl | ⟨newer, z, rfl⟩
    · obtain ⟨rfl, hx⟩ := List.append_inj' hsplit rfl
      cases hx
      exact .inr hp
    · rw [List.concat_eq_append, ← List.cons_append, ← List.append_assoc] at hsplit
      obtain ⟨rfl, _⟩ := List.append_inj' hsplit rfl
      exact .inl ⟨older, y, newer, rfl, hp⟩
  · rintro (⟨older, y, newer, rfl, hp⟩ | hp)
    · exact ⟨older, y, newer ++ [x], by simp, hp⟩
    · exact ⟨xs, x, [], rfl, hp⟩

variable {ns before after : List Notice} {n : Notice} {id : Nat} {e : Event} {channel : Bool}
  {cs : List (Nat × Event)}

theorem closed_concat : Closed (ns ++ [n]) id ↔
    Closed ns id ∨ n.closes id = true ∧ id < (subscribers ns).length :=
  exists_split_concat

theorem dismissed_concat :
    Dismissed (ns ++ [n]) id ↔ Dismissed ns id ∨ (∃ e, n = .announced e) ∧ Closed ns id :=
  exists_split_concat

@[simp] theorem subscribers_append : subscribers (ns ++ before) = subscribers ns ++ subscribers before :=
  List.filterMap_append

@[simp] theorem events_append : events (ns ++ before) = events ns ++ events before :=
  List.filterMap_append

theorem events_singleton (n : Notice) : events [n] = n.event?.toList := by
  cases n with
  | subscribed | hungUp | closed | announced => rfl

/-- What closes an observer announces nothing and is no subscription. -/
theorem of_closes (h : n.closes id = true) : n.event? = none ∧ n.channel? = none := by
  cases n with
  | hungUp | closed => exact ⟨rfl, rfl⟩
  | subscribed | announced => cases h

theorem Closed.lt (h : Closed ns id) : id < (subscribers ns).length := by
  obtain ⟨older, n, newer, rfl, _, hlt⟩ := h
  rw [subscribers_append, List.length_append]
  omega

theorem Dismissed.closed (h : Dismissed ns id) : Closed ns id := by
  obtain ⟨older, n, newer, rfl, _, older', n', newer', rfl, hn', hlt⟩ := h
  exact ⟨older', n', newer' ++ n :: newer, by simp, hn', hlt⟩

/-- The number that the next subscriber gets. -/
theorem length_subscribers_lt :
    (subscribers before).length < (subscribers (before ++ .subscribed channel :: after)).length := by
  have hone : subscribers (.subscribed channel :: after) = channel :: subscribers after := rfl
  rw [subscribers_append, hone, List.length_append, List.length_cons]
  omega

/-- The kind of a subscriber stays what it was. -/
theorem channel_iff :
    Channel (before ++ .subscribed channel :: after) (subscribers before).length ↔ channel = true := by
  have hone : subscribers (.subscribed channel :: after) = channel :: subscribers after := rfl
  simp [Channel, hone]

theorem staysOpen_concat : StaysOpen id (after ++ [n]) ↔ StaysOpen id after ∧ n.closes id = false := by
  simp [StaysOpen, or_imp, forall_and]

/-- Since it subscribed an observer has closed unless it stayed open. -/
theorem closed_iff :
    Closed (before ++ .subscribed channel :: after) (subscribers before).length ↔
      ¬ StaysOpen (subscribers before).length after := by
  induction after using List.reverseRecOn with
  | nil =>
    have hfresh : ¬ Closed (before ++ [.subscribed channel]) (subscribers before).length := by
      rw [closed_concat]
      rintro (h | ⟨h, _⟩)
      · exact absurd h.lt (Nat.lt_irrefl _)
      · cases h
    exact ⟨fun h => absurd h hfresh, fun h => absurd nofun h⟩
  | append_singleton after n ih =>
    have hlt : (subscribers before).length <
        (subscribers (before ++ .subscribed channel :: after)).length := length_subscribers_lt
    rw [← List.cons_append, ← List.append_assoc, closed_concat, ih, staysOpen_concat, not_and_or,
      Bool.not_eq_false]
    simp only [hlt, and_true]

/-- As long as an observer stays open, nothing comes once it has closed. -/
theorem StaysOpen.whileOpen (h : StaysOpen id after) : whileOpen id after = after := by
  apply List.takeWhile_eq_self_iff.mpr
  intro n hn
  rw [h n hn]
  rfl

theorem StaysOpen.onceClosed (h : StaysOpen id after) : onceClosed id after = [] := by
  have hsplit : Notice.whileOpen id after ++ Notice.onceClosed id after = after :=
    List.takeWhile_append_dropWhile
  rw [h.whileOpen] at hsplit
  exact List.append_cancel_left (hsplit.trans (List.append_nil after).symm)

/-- Who never closes hears everything. -/
theorem StaysOpen.audible (h : StaysOpen id after) : audible channel id after = events after := by
  rw [Notice.audible, h.whileOpen, h.onceClosed]
  cases channel with
  | true | false => simp [events]

/-- What comes once it has closed is not heard while it is open. -/
theorem whileOpen_concat (h : ¬ StaysOpen id after) :
    whileOpen id (after ++ [n]) = whileOpen id after := by
  unfold whileOpen
  rw [List.takeWhile_append, if_neg]
  intro hlength
  apply h
  have hself := (List.takeWhile_prefix _).eq_of_length hlength
  intro x hx
  simpa using List.takeWhile_eq_self_iff.mp hself x hx

theorem onceClosed_concat (h : ¬ StaysOpen id after) :
    onceClosed id (after ++ [n]) = onceClosed id after ++ [n] := by
  have hsplit : whileOpen id (after ++ [n]) ++ onceClosed id (after ++ [n]) = after ++ [n] :=
    List.takeWhile_append_dropWhile
  have hbefore : whileOpen id after ++ onceClosed id after = after :=
    List.takeWhile_append_dropWhile
  rw [whileOpen_concat h] at hsplit
  nth_rewrite 3 [← hbefore] at hsplit
  rw [List.append_assoc] at hsplit
  exact List.append_cancel_left hsplit

/-- While an observer is open one more notice is heard if it is an announcement, and one that closes
the observer is none. -/
theorem StaysOpen.events_concat (h : StaysOpen id after) :
    events (Notice.whileOpen id (after ++ [n])) = events after ++ n.event?.toList ∧
      events (Notice.onceClosed id (after ++ [n])) = [] := by
  have hopen : ∀ x ∈ after, (!x.closes id) = true := by
    intro x hx
    rw [h x hx]
    rfl
  unfold Notice.whileOpen Notice.onceClosed
  rw [List.takeWhile_append_of_pos hopen, List.dropWhile_append_of_pos hopen, events_append]
  cases hn : n.closes id with
  | true =>
    obtain ⟨hsilent, _⟩ := of_closes hn
    simp [hn, events, hsilent]
  | false =>
    have hstays : [n].takeWhile (fun x => !x.closes id) = [n] := by simp [hn]
    have hnone : [n].dropWhile (fun x => !x.closes id) = [] := by simp [hn]
    rw [hstays, hnone, events_singleton]
    exact ⟨rfl, rfl⟩

/-- Since it subscribed an observer was dismissed exactly if something was announced once it had
closed. -/
theorem dismissed_iff :
    Dismissed (before ++ .subscribed channel :: after) (subscribers before).length ↔
      events (onceClosed (subscribers before).length after) ≠ [] := by
  induction after using List.reverseRecOn with
  | nil =>
    have hfresh : ¬ Closed (before ++ [.subscribed channel]) (subscribers before).length :=
      fun h => closed_iff.mp h nofun
    exact ⟨fun h => absurd h.closed hfresh, fun h => absurd rfl h⟩
  | append_singleton after n ih =>
    rw [← List.cons_append, ← List.append_assoc, dismissed_concat, ih, closed_iff]
    by_cases hopen : StaysOpen (subscribers before).length after
    · rw [hopen.onceClosed, hopen.events_concat.2]
      simp [hopen, events]
    · rw [onceClosed_concat hopen, events_append, events_singleton]
      cases n with
      | subscribed | hungUp | closed => simp [event?]
      | announced e => simp [event?, hopen]

/-- An observer that subscribed hears what is announced next, unless something was announced since it
closed or it is a channel and has closed. -/
theorem hears_iff :
    Hears (before ++ .subscribed channel :: after) (subscribers before).length ↔
      events (onceClosed (subscribers before).length after) = [] ∧
        (channel = true → StaysOpen (subscribers before).length after) := by
  rw [Hears, Registered, dismissed_iff, channel_iff, closed_iff]
  simp only [length_subscribers_lt, true_and, not_not, not_and]

/-- One more announcement is audible to those who hear it. -/
theorem audible_concat (before after : List Notice) (channel : Bool) (n : Notice) :
    (Hears (before ++ .subscribed channel :: after) (subscribers before).length →
        audible channel (subscribers before).length (after ++ [n]) =
          audible channel (subscribers before).length after ++ n.event?.toList) ∧
      (¬ Hears (before ++ .subscribed channel :: after) (subscribers before).length →
        audible channel (subscribers before).length (after ++ [n]) =
          audible channel (subscribers before).length after) := by
  rw [hears_iff]
  by_cases hopen : StaysOpen (subscribers before).length after
  · -- It is open, or closes just now.
    obtain ⟨hmore, hnone⟩ := hopen.events_concat (n := n)
    have hbefore : events (onceClosed (subscribers before).length after) = [] := by
      rw [hopen.onceClosed]
      rfl
    rw [hopen.audible, audible, hmore, hnone]
    simp [hopen, hbefore]
  · -- It closed before, and only what is announced next may still be heard.
    unfold audible
    rw [whileOpen_concat hopen, onceClosed_concat hopen, events_append, events_singleton]
    simp only [hopen, imp_false]
    cases channel with
    | true => simp
    | false =>
      simp only [Bool.false_eq_true, not_false_eq_true, and_true, if_false]
      constructor
      · intro hnone
        rw [hnone]
        cases n with
        | subscribed | hungUp | closed | announced => simp [event?]
      · intro hsome
        have hlong : 1 ≤ (events (onceClosed (subscribers before).length after)).length :=
          List.length_pos_of_ne_nil hsome
        rw [List.take_append_of_le_length hlong]

/-- The calls up to the last notice, and those that it makes. -/
theorem Calls.concat (h : Calls (ns ++ [n]) cs) :
    Calls ns cs ∧ n.event? = none ∨
      ∃ (e : Event) (older : List (Nat × Event)) (audience : List Nat), n = .announced e ∧
        cs = older ++ audience.map (·, e) ∧ Calls ns older ∧ audience.Pairwise (· < ·) ∧
          ∀ id, id ∈ audience ↔ Hears ns id := by
  generalize hall : ns ++ [n] = all at h
  cases h with
  | start => simp at hall
  | silent h hn =>
    obtain ⟨rfl, hlast⟩ := List.append_inj' hall rfl
    cases hlast
    exact .inl ⟨h, hn⟩
  | announced e h hsorted haudience =>
    obtain ⟨rfl, hlast⟩ := List.append_inj' hall rfl
    cases hlast
    exact .inr ⟨e, _, _, rfl, rfl, h, hsorted, haudience⟩

/-- Only subscribers are called. -/
theorem Calls.lt (h : Calls ns cs) : ∀ c ∈ cs, c.1 < (subscribers ns).length := by
  have hgrows (ns : List Notice) (n : Notice) :
      (subscribers ns).length ≤ (subscribers (ns ++ [n])).length := by
    rw [subscribers_append, List.length_append]
    exact Nat.le_add_right _ _
  induction h with
  | start => nofun
  | silent _ _ ih => exact fun c hc => Nat.lt_of_lt_of_le (ih c hc) (hgrows _ _)
  | announced e _ _ haudience ih =>
    intro c hc
    apply Nat.lt_of_lt_of_le _ (hgrows _ _)
    rcases List.mem_append.mp hc with hc | hc
    · exact ih c hc
    · obtain ⟨id, hid, rfl⟩ := List.mem_map.mp hc
      exact ((haudience id).mp hid).1.1

theorem heardIn_append (cs cs' : List (Nat × Event)) (id : Nat) :
    heardIn (cs ++ cs') id = heardIn cs id ++ heardIn cs' id := by
  simp [heardIn]

/-- Each time that an observer is called with an event it hears the event. -/
theorem heardIn_map (audience : List Nat) :
    heardIn (audience.map (·, e)) id = List.replicate (audience.count id) e := by
  induction audience with
  | nil => rfl
  | cons a audience ih =>
    unfold heardIn at ih ⊢
    by_cases ha : a = id
    · subst ha
      simp [ih, List.replicate_succ]
    · simp [ih, ha]

/-- Whoever hears an announcement is called once, and nobody else is. -/
theorem heardIn_audience {audience : List Nat} (h : audience.Pairwise (· < ·))
    (haudience : ∀ id, id ∈ audience ↔ Hears ns id) :
    (Hears ns id → heardIn (audience.map (·, e)) id = [e]) ∧
      (¬ Hears ns id → heardIn (audience.map (·, e)) id = []) := by
  rw [heardIn_map, ← haudience id]
  have hnodup : audience.Nodup := h.imp fun hlt => Nat.ne_of_lt hlt
  refine ⟨fun hmem => ?_, fun hnot => ?_⟩
  · rw [List.count_eq_one_of_mem hnodup hmem]
    rfl
  · rw [List.count_eq_zero_of_not_mem hnot]
    rfl

/-- An observer hears exactly what is announced after it subscribes and before it closes, in order and
once each, and the event that finds it closed unless it is a channel. -/
theorem Calls.heardIn_subscriber (h : Calls (before ++ .subscribed channel :: after) cs) :
    heardIn cs (subscribers before).length = audible channel (subscribers before).length after := by
  induction after using List.reverseRecOn generalizing cs with
  | nil =>
    rcases h.concat with ⟨hcalls, _⟩ | ⟨e, _, _, hn, _⟩
    · -- Those called before have smaller numbers.
      have hnone : cs.filter (·.1 = (subscribers before).length) = [] := by
        apply List.filter_eq_nil_iff.mpr
        intro c hc
        have hlt := hcalls.lt c hc
        simp only [decide_eq_true_eq]
        omega
      simp [heardIn, hnone, audible, whileOpen, onceClosed, events]
    · cases hn
  | append_singleton after n ih =>
    rw [← List.cons_append, ← List.append_assoc] at h
    obtain ⟨hmore, hsame⟩ := audible_concat before after channel n
    by_cases hears : Hears (before ++ .subscribed channel :: after) (subscribers before).length
    · rw [hmore hears]
      rcases h.concat with ⟨hcalls, hn⟩ | ⟨e, older, audience, rfl, rfl, hcalls, hsorted, haudience⟩
      · rw [ih hcalls, hn, Option.toList_none, List.append_nil]
      · rw [heardIn_append, ih hcalls, (heardIn_audience hsorted haudience).1 hears]
        rfl
    · rw [hsame hears]
      rcases h.concat with ⟨hcalls, _⟩ | ⟨e, older, audience, rfl, rfl, hcalls, hsorted, haudience⟩
      · exact ih hcalls
      · rw [heardIn_append, ih hcalls, (heardIn_audience hsorted haudience).2 hears, List.append_nil]

end Notice

namespace Observers

open Notice

/-- The calls that were made, the oldest first. -/
def calls (o : Observers) : List (Nat × Event) := o.delivered.reverse

/-- The numbers of those who are registered, in the order in which they are called. -/
def registered (o : Observers) : List Nat := o.list.map (·.id)

/-- What one of the observers heard, the oldest first. -/
def heard (o : Observers) (id : Nat) : List Event := heardIn o.calls id

/-- Those who close by the time of the next event. -/
def closing (o : Observers) : List Nat :=
  (o.list.filter fun b => !b.closed && b.closes).map (·.id)

/-- What happens while these events are announced, one after the other: whom one of them finds closed,
that closed before. -/
def notices (o : Observers) : List Event → List Notice
  | [] => []
  | e :: es => o.closing.map .closed ++ .announced e :: (o.announce e).notices es

/-- Observers who went through these notices, and through nothing else. -/
structure Underwent (o : Observers) (ns : List Notice) : Prop where
  nextId : o.nextId = (subscribers ns).length
  ascending : o.registered.Pairwise (· < ·)
  registered : ∀ id, id ∈ o.registered ↔ Registered ns id
  channel : ∀ b ∈ o.list, b.channel = true ↔ Channel ns b.id
  closed : ∀ b ∈ o.list, b.closed = true ↔ Closed ns b.id
  calls : Calls ns o.calls

variable {o : Observers} {ns : List Notice}

theorem underwent_nil : Underwent {} [] where
  nextId := rfl
  ascending := .nil
  registered := by simp [Observers.registered, Registered, subscribers]
  channel := nofun
  closed := nofun
  calls := .start

/-- A notice that is no announcement dismisses nobody. -/
theorem dismissed_concat_silent {n : Notice} {id : Nat} (hn : n.event? = none) :
    Dismissed (ns ++ [n]) id ↔ Dismissed ns id := by
  rw [dismissed_concat]
  refine ⟨fun h => h.resolve_right ?_, .inl⟩
  rintro ⟨⟨e, rfl⟩, _⟩
  cases hn

theorem events_notices (es : List Event) (o : Observers) : events (o.notices es) = es := by
  induction es generalizing o with
  | nil => rfl
  | cons e es ih =>
    have hclosed : events (o.closing.map .closed) = [] := by
      simp [events, List.filterMap_map, Function.comp_def, event?]
    have hone (ns : List Notice) : events (.announced e :: ns) = e :: events ns := rfl
    rw [notices, events_append, hclosed, hone, ih, List.nil_append]

theorem Underwent.subscribe (h : o.Underwent ns) (channel : Bool) (closing : List Bool) :
    (o.subscribe channel closing).Underwent (ns ++ [.subscribed channel]) := by
  have hlist : (o.subscribe channel closing).list =
      o.list ++ [{ id := o.nextId, channel := channel, closing := closing }] := rfl
  have hids : (o.subscribe channel closing).registered = o.registered ++ [o.nextId] := by
    simp [Observers.registered, hlist]
  have hone : subscribers [.subscribed channel] = [channel] := rfl
  have hlt (b : Observer) (hb : b ∈ o.list) : b.id < (subscribers ns).length :=
    ((h.registered b.id).mp (List.mem_map_of_mem hb)).1
  refine ⟨?_, ?_, ?_, ?_, ?_, .silent h.calls rfl⟩
  · rw [subscribers_append, List.length_append, hone, ← h.nextId]
    rfl
  · rw [hids, List.pairwise_append]
    refine ⟨h.ascending, List.pairwise_singleton _ _, ?_⟩
    intro id hid id' hid'
    rw [List.mem_singleton.mp hid', h.nextId]
    exact ((h.registered id).mp hid).1
  · intro id
    have hfresh : Dismissed ns id → id < (subscribers ns).length := fun hd => hd.closed.lt
    rw [hids, List.mem_append, List.mem_singleton, h.registered, h.nextId, Registered, Registered,
      dismissed_concat_silent rfl, subscribers_append, List.length_append, hone, List.length_singleton]
    by_cases hd : Dismissed ns id
    · have := hfresh hd
      simp only [hd, not_true, and_false, false_or, iff_false]
      omega
    · simp only [hd, not_false_eq_true, and_true]
      omega
  · intro b hb
    rw [Channel, subscribers_append, hone]
    rcases List.mem_append.mp hb with hb | hb
    · rw [List.getElem?_append_left (hlt b hb)]
      exact h.channel b hb
    · rw [List.mem_singleton.mp hb, h.nextId]
      simp
  · intro b hb
    simp only [closed_concat, closes, Bool.false_eq_true, false_and, or_false]
    rcases List.mem_append.mp hb with hb | hb
    · exact h.closed b hb
    · rw [List.mem_singleton.mp hb, h.nextId]
      exact ⟨nofun, fun hclosed => absurd hclosed.lt (Nat.lt_irrefl _)⟩

theorem registered_hangUp (o : Observers) (id : Nat) : (o.hangUp id).registered = o.registered := by
  simp only [Observers.registered, Observers.hangUp, List.map_map]
  apply List.map_congr_left
  intro b _
  dsimp only [Function.comp]
  split
  · rfl
  · rfl

theorem Underwent.hangUp {n : Notice} {id : Nat} (h : o.Underwent ns)
    (hn : ∀ k, n.closes k = true ↔ k = id) : (o.hangUp id).Underwent (ns ++ [n]) := by
  obtain ⟨hsilent, hnobody⟩ := of_closes ((hn id).mpr rfl)
  have hsame : subscribers (ns ++ [n]) = subscribers ns := by
    rw [subscribers_append]
    simp [subscribers, hnobody]
  refine ⟨?_, ?_, ?_, ?_, ?_, .silent h.calls hsilent⟩
  · rw [hsame, ← h.nextId]
    rfl
  · rw [registered_hangUp]
    exact h.ascending
  · intro k
    rw [registered_hangUp, h.registered, Registered, Registered, dismissed_concat_silent hsilent, hsame]
  · intro b hb
    obtain ⟨a, ha, rfl⟩ := List.mem_map.mp hb
    rw [Channel, hsame]
    split
    · exact h.channel a ha
    · exact h.channel a ha
  · intro b hb
    obtain ⟨a, ha, rfl⟩ := List.mem_map.mp hb
    have hlt : a.id < (subscribers ns).length :=
      ((h.registered a.id).mp (List.mem_map_of_mem ha)).1
    by_cases hid : a.id = id
    · rw [if_pos hid, closed_concat]
      simp [hn, hid, hid ▸ hlt]
    · rw [if_neg hid, closed_concat, hn, or_iff_left (fun hclosed => hid hclosed.1)]
      exact h.closed a ha

/-- An observer once those with these numbers have closed. -/
def closedAmong (ids : List Nat) (b : Observer) : Observer :=
  if b.id ∈ ids then { b with closed := true } else b

/-- Several close, one after the other. -/
theorem foldl_hangUp_eq (ids : List Nat) (o : Observers) :
    ids.foldl Observers.hangUp o = { o with list := o.list.map (closedAmong ids) } := by
  induction ids generalizing o with
  | nil =>
    have hnone : closedAmong [] = id := by
      funext b
      exact if_neg List.not_mem_nil
    rw [List.foldl_nil, hnone, List.map_id]
  | cons id ids ih =>
    rw [List.foldl_cons, ih]
    unfold Observers.hangUp
    simp only [List.map_map, Observers.mk.injEq, and_true]
    apply List.map_congr_left
    intro b _
    by_cases hid : b.id = id
    · simp [closedAmong, hid]
    · simp [closedAmong, hid]

theorem Underwent.foldl_hangUp (ids : List Nat) (h : o.Underwent ns) :
    (ids.foldl Observers.hangUp o).Underwent (ns ++ ids.map .closed) := by
  induction ids generalizing o ns with
  | nil => simpa using h
  | cons id ids ih =>
    rw [List.map_cons, List.append_cons]
    have hcloses (k : Nat) : (Notice.closed id).closes k = true ↔ k = id := by
      rw [closes, beq_iff_eq, eq_comm]
    exact ih (h.hangUp hcloses)

/-- Someone is among those who close now exactly if its own next entry says so. -/
theorem Underwent.mem_closing (h : o.Underwent ns) {b : Observer} (hb : b ∈ o.list) :
    b.id ∈ o.closing ↔ b.closed = false ∧ b.closes = true := by
  have hnodup : (o.list.map (·.id)).Nodup := h.ascending.imp fun hlt => Nat.ne_of_lt hlt
  constructor
  · intro hid
    obtain ⟨a, ha, hsame⟩ := List.mem_map.mp hid
    obtain ⟨ha, hcloses⟩ := List.mem_filter.mp ha
    have hab : a = b := List.inj_on_of_nodup_map hnodup ha hb hsame
    simpa [hab] using hcloses
  · rintro ⟨hclosed, hcloses⟩
    exact List.mem_map_of_mem (List.mem_filter.mpr ⟨hb, by simp [hclosed, hcloses]⟩)

/-- The numbers of the observers for whom something holds, if the numbers say for whom. -/
theorem Underwent.mem_filter (h : o.Underwent ns) {p : Observer → Bool} (P : Nat → Prop)
    (hp : ∀ b ∈ o.list, p b = true ↔ P b.id) (id : Nat) :
    id ∈ (o.list.filter p).map (·.id) ↔ Registered ns id ∧ P id := by
  rw [← h.registered]
  constructor
  · intro hid
    obtain ⟨b, hb, rfl⟩ := List.mem_map.mp hid
    obtain ⟨hb, hpb⟩ := List.mem_filter.mp hb
    exact ⟨List.mem_map_of_mem hb, (hp b hb).mp hpb⟩
  · rintro ⟨hid, hP⟩
    obtain ⟨b, hb, rfl⟩ := List.mem_map.mp hid
    exact List.mem_map_of_mem (List.mem_filter.mpr ⟨hb, (hp b hb).mpr hP⟩)

/-- An announcement where nobody closes now: who is found closed has been so before. -/
theorem Underwent.announce (h : o.Underwent ns) (hsettled : ∀ b ∈ o.list, b.foundClosed = b.closed)
    (e : Event) : (o.announce e).Underwent (ns ++ [.announced e]) := by
  have hsame : subscribers (ns ++ [.announced e]) = subscribers ns := by
    rw [subscribers_append]
    exact List.append_nil _
  have hids : (o.announce e).registered = (o.list.filter fun b => !b.foundClosed).map (·.id) := by
    simp [Observers.registered, Observers.announce, Function.comp_def, Observer.afterEvent]
  have hsorted (p : Observer → Bool) : ((o.list.filter p).map (·.id)).Pairwise (· < ·) :=
    h.ascending.sublist (List.filter_sublist.map _)
  have hopen : ∀ b ∈ o.list, (!b.foundClosed) = true ↔ ¬ Closed ns b.id := by
    intro b hb
    rw [hsettled b hb, ← h.closed b hb]
    simp
  have hhears : ∀ b ∈ o.list, b.hears = true ↔ ¬ (Channel ns b.id ∧ Closed ns b.id) := by
    intro b hb
    rw [← h.channel b hb, ← h.closed b hb, ← hsettled b hb]
    simp [Observer.hears, not_and_or, -not_and]
  have hkept (b : Observer) (hb : b ∈ (o.announce e).list) :
      ∃ a ∈ o.list, b = a.afterEvent := by
    obtain ⟨a, ha, rfl⟩ := List.mem_map.mp hb
    exact ⟨a, (List.mem_filter.mp ha).1, rfl⟩
  refine ⟨?_, ?_, ?_, ?_, ?_, ?_⟩
  · rw [hsame, ← h.nextId]
    rfl
  · rw [hids]
    exact hsorted _
  · intro id
    rw [hids, h.mem_filter (¬ Closed ns ·) hopen]
    simp only [Registered, hsame, dismissed_concat, Notice.announced.injEq, exists_eq', true_and,
      not_or, and_assoc]
  · intro b hb
    obtain ⟨a, ha, rfl⟩ := hkept b hb
    rw [Channel, hsame]
    exact h.channel a ha
  · intro b hb
    obtain ⟨a, ha, rfl⟩ := hkept b hb
    simp only [closed_concat, closes, Bool.false_eq_true, false_and, or_false]
    exact h.closed a ha
  · have hcalls : (o.announce e).calls =
        o.calls ++ ((o.list.filter (·.hears)).map (·.id)).map (·, e) := by
      simp [Observers.calls, Observers.announce, Function.comp_def]
    rw [hcalls]
    exact Calls.announced e h.calls (hsorted _) (h.mem_filter _ hhears)

/-- An announcement makes no difference between observers of whom it finds the same ones closed, and
who are the same otherwise. -/
theorem announce_map {f : Observer → Observer} (e : Event)
    (hf : ∀ b ∈ o.list, (f b).foundClosed = b.foundClosed ∧ (f b).hears = b.hears ∧ (f b).id = b.id ∧
      (b.foundClosed = false → f b = b)) :
    Observers.announce { o with list := o.list.map f } e = o.announce e := by
  have hstay : ((o.list.map f).filter fun b => !b.foundClosed).map (·.afterEvent) =
      (o.list.filter fun b => !b.foundClosed).map (·.afterEvent) := by
    have hfilter : o.list.filter ((fun b => !b.foundClosed) ∘ f) =
        o.list.filter fun b => !b.foundClosed :=
      List.filter_congr fun b hb => congrArg Bool.not (hf b hb).1
    rw [List.filter_map, hfilter, List.map_map]
    apply List.map_congr_left
    intro b hb
    obtain ⟨hb, hopen⟩ := List.mem_filter.mp hb
    have hsame : f b = b := (hf b hb).2.2.2 (by simpa using hopen)
    rw [Function.comp_apply, hsame]
  have hheard : ((o.list.map f).filter (·.hears)).map (fun b => (b.id, e)) =
      (o.list.filter (·.hears)).map fun b => (b.id, e) := by
    have hfilter : o.list.filter ((·.hears) ∘ f) = o.list.filter (·.hears) :=
      List.filter_congr fun b hb => (hf b hb).2.1
    rw [List.filter_map, hfilter, List.map_map]
    apply List.map_congr_left
    intro b hb
    rw [Function.comp_apply, (hf b (List.mem_filter.mp hb).1).2.2.1]
  simp only [Observers.announce, hstay, hheard]

/-- Once those who close now have closed, an event finds closed who has closed before it. -/
theorem Underwent.closedAmong_closing (h : o.Underwent ns) {b : Observer} (hb : b ∈ o.list) :
    b.closes = true ∧ closedAmong o.closing b = { b with closed := true } ∨
      b.foundClosed = b.closed ∧ closedAmong o.closing b = b := by
  by_cases hid : b.id ∈ o.closing
  · exact .inl ⟨((h.mem_closing hb).mp hid).2, if_pos hid⟩
  · refine .inr ⟨?_, if_neg hid⟩
    have hstays := mt (h.mem_closing hb).mpr hid
    cases hclosed : b.closed with
    | true => simp [Observer.foundClosed, hclosed]
    | false => simpa [Observer.foundClosed, hclosed] using hstays

/-- Whom an event finds closed, that closes before it is announced. -/
theorem Underwent.announced (h : o.Underwent ns) (e : Event) :
    (o.announce e).Underwent (ns ++ (o.closing.map .closed ++ [.announced e])) := by
  have hlist := foldl_hangUp_eq o.closing o
  have hsame : (o.closing.foldl Observers.hangUp o).announce e = o.announce e := by
    rw [hlist]
    apply announce_map
    intro b hb
    rcases h.closedAmong_closing hb with ⟨hcloses, hone⟩ | ⟨_, hone⟩
    · rw [hone]
      simp [Observer.hears, Observer.foundClosed, hcloses]
    · rw [hone]
      exact ⟨rfl, rfl, rfl, fun _ => rfl⟩
  have hsettled : ∀ b ∈ (o.closing.foldl Observers.hangUp o).list, b.foundClosed = b.closed := by
    rw [hlist]
    intro b hb
    obtain ⟨a, ha, rfl⟩ := List.mem_map.mp hb
    rcases h.closedAmong_closing ha with ⟨_, hone⟩ | ⟨hopen, hone⟩
    · rw [hone]
      rfl
    · rw [hone]
      exact hopen
  rw [← List.append_assoc, ← hsame]
  exact (h.foldl_hangUp o.closing).announce hsettled e

/-- So it goes with one event after the other. -/
theorem Underwent.foldl_announce (es : List Event) (h : o.Underwent ns) :
    (es.foldl Observers.announce o).Underwent (ns ++ o.notices es) := by
  induction es generalizing o ns with
  | nil => simpa [notices] using h
  | cons e es ih =>
    have hnext := ih (h.announced e)
    rw [notices]
    simpa using hnext

/-- An observer that has subscribed and does not say of any event to come that it finds it closed. -/
structure Steady (o : Observers) (id : Nat) : Prop where
  known : id < o.nextId
  silent : ∀ b ∈ o.list, b.id = id → true ∉ b.closing

variable {id : Nat}

theorem Steady.subscribe (h : o.Steady id) (channel : Bool) (closing : List Bool) :
    (o.subscribe channel closing).Steady id where
  known := Nat.lt_succ_of_lt h.known
  silent := by
    intro b hb hid
    rcases List.mem_append.mp hb with hb | hb
    · exact h.silent b hb hid
    · rw [List.mem_singleton.mp hb] at hid
      exact absurd hid (Nat.ne_of_gt h.known)

theorem Steady.hangUp (h : o.Steady id) (k : Nat) : (o.hangUp k).Steady id where
  known := h.known
  silent := by
    intro b hb hid
    obtain ⟨a, ha, rfl⟩ := List.mem_map.mp hb
    by_cases hk : a.id = k
    · rw [if_pos hk] at hid ⊢
      exact h.silent a ha hid
    · rw [if_neg hk] at hid ⊢
      exact h.silent a ha hid

theorem Steady.announce (h : o.Steady id) (e : Event) :
    id ∉ o.closing ∧ (o.announce e).Steady id := by
  refine ⟨?_, h.known, ?_⟩
  · intro hmem
    obtain ⟨b, hb, hid⟩ := List.mem_map.mp hmem
    obtain ⟨hb, hcloses⟩ := List.mem_filter.mp hb
    have hentry : b.closing.headD false = true := by
      simp only [Bool.and_eq_true] at hcloses
      exact hcloses.2
    apply h.silent b hb hid
    cases hentries : b.closing with
    | nil => simp [hentries] at hentry
    | cons entry entries => simp_all
  · intro b hb hid
    obtain ⟨a, ha, rfl⟩ := List.mem_map.mp hb
    exact fun htail => h.silent a (List.mem_filter.mp ha).1 hid (List.mem_of_mem_tail htail)

/-- It stays open whatever is announced. -/
theorem Steady.foldl_announce (es : List Event) (h : o.Steady id) :
    StaysOpen id (o.notices es) ∧ (es.foldl Observers.announce o).Steady id := by
  induction es generalizing o with
  | nil => exact ⟨nofun, h⟩
  | cons e es ih =>
    obtain ⟨hopen, hnext⟩ := h.announce e
    obtain ⟨hlater, hend⟩ := ih hnext
    refine ⟨?_, hend⟩
    intro n hn
    rcases List.mem_append.mp hn with hn | hn
    · obtain ⟨k, hk, rfl⟩ := List.mem_map.mp hn
      have hother : k ≠ id := fun hsame => hopen (hsame ▸ hk)
      simpa [closes] using hother
    · rcases List.mem_cons.mp hn with rfl | hn
      · rfl
      · exact hlater n hn

/-- A new observer is steady if none of its entries says that it closes. -/
theorem Underwent.steady (h : o.Underwent ns) (channel : Bool) {closing : List Bool}
    (hclosing : true ∉ closing) : (o.subscribe channel closing).Steady o.nextId where
  known := Nat.lt_succ_self _
  silent := by
    intro b hb hid
    rcases List.mem_append.mp hb with hb | hb
    · have hold : b.id < (subscribers ns).length :=
        ((h.registered b.id).mp (List.mem_map_of_mem hb)).1
      rw [hid, h.nextId] at hold
      exact absurd hold (Nat.lt_irrefl _)
    · rw [List.mem_singleton.mp hb]
      exact hclosing

end Observers

end PixelMachine
