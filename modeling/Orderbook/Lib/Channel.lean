import Orderbook.Lib.Path

/-! # Bounded FIFO channels

    A channel holds at most `bound` items and gives them back in the order
    in which they were sent.  The bound is part of the type, so a channel
    that holds too much cannot be built. -/

namespace Orderbook

/-- The items sent and not yet received, the oldest first. -/
structure Channel (α : Type) (bound : ℕ) where
  items : List α
  length_le : items.length ≤ bound

namespace Channel
variable {α : Type} {bound : ℕ}

def empty : Channel α bound := ⟨[], Nat.zero_le _⟩

/-- Send an item, unless the channel is full. -/
def send (c : Channel α bound) (x : α) : Option (Channel α bound) :=
  if h : c.items.length < bound then some ⟨c.items ++ [x], by simpa using h⟩ else none

/-- Receive the oldest item, if there is one. -/
def receive : Channel α bound → Option (α × Channel α bound)
  | ⟨[], _⟩ => none
  | ⟨x :: xs, h⟩ => some (x, ⟨xs, Nat.le_of_succ_le h⟩)

@[simp] theorem empty_items : (empty : Channel α bound).items = [] := rfl

theorem send_eq_some {c c' : Channel α bound} {x : α} (h : c.send x = some c') :
    c'.items = c.items ++ [x] := by
  unfold send at h
  split at h
  · cases h
    rfl
  · cases h

theorem length_lt_of_send {c c' : Channel α bound} {x : α} (h : c.send x = some c') :
    c.items.length < bound := by
  by_contra hge
  rw [send, dif_neg hge] at h
  cases h

/-- A channel that refuses an item is full. -/
theorem length_eq_of_refused {c : Channel α bound} {x : α} (h : c.send x = none) :
    c.items.length = bound := by
  by_contra hne
  rw [send, dif_pos (Nat.lt_of_le_of_ne c.length_le hne)] at h
  cases h

theorem send_of_lt {c : Channel α bound} (x : α) (h : c.items.length < bound) :
    ∃ c', c.send x = some c' ∧ c'.items = c.items ++ [x] := by
  unfold send
  rw [dif_pos h]
  exact ⟨_, rfl, rfl⟩

theorem receive_eq_some {c c' : Channel α bound} {x : α} (h : c.receive = some (x, c')) :
    c.items = x :: c'.items := by
  obtain ⟨items, hle⟩ := c
  cases items with
  | nil => cases h
  | cons y ys =>
    cases h
    rfl

/-- A channel that gives nothing is empty. -/
theorem items_eq_nil_of_receive {c : Channel α bound} (h : c.receive = none) : c.items = [] := by
  obtain ⟨items, hle⟩ := c
  cases items with
  | nil => rfl
  | cons y ys => cases h

theorem receive_of_cons {c : Channel α bound} {x : α} {xs : List α} (h : c.items = x :: xs) :
    ∃ c', c.receive = some (x, c') ∧ c'.items = xs := by
  obtain ⟨items, hle⟩ := c
  subst h
  exact ⟨_, rfl, rfl⟩

/-! ### Runs -/

/-- What a channel does in a run. -/
inductive Act (α : Type) where
  | send (x : α)
  | receive (x : α)
  | silent

inductive Step : Channel α bound → Act α → Channel α bound → Prop where
  | send (c c' : Channel α bound) (x : α) : c.send x = some c' → Step c (.send x) c'
  | receive (c c' : Channel α bound) (x : α) : c.receive = some (x, c') → Step c (.receive x) c'
  | silent (c : Channel α bound) : Step c .silent c

def sent (as : List (Act α)) : List α :=
  as.filterMap fun a => match a with
    | .send x => some x
    | _ => none

def received (as : List (Act α)) : List α :=
  as.filterMap fun a => match a with
    | .receive x => some x
    | _ => none

/-- **First in, first out.**  What was sent is what was received and then what
    is still in the channel. -/
theorem sent_eq {c c' : Channel α bound} {as : List (Act α)} (h : Path Step c as c') :
    c.items ++ sent as = received as ++ c'.items := by
  induction h with
  | nil c => simp [sent, received]
  | @cons c c₁ c' a as hs _ ih =>
    cases hs with
    | send _ x hsend =>
      rw [send_eq_some hsend] at ih
      simpa [sent, received] using ih
    | receive _ x hrecv =>
      rw [receive_eq_some hrecv]
      simpa [sent, received] using ih
    | silent => simpa [sent, received] using ih

/-- A run from the empty channel receives a prefix of what it sends, and lags
    behind by at most the bound. -/
theorem received_in_order {c : Channel α bound} {as : List (Act α)}
    (h : Path Step (empty : Channel α bound) as c) :
    received as <+: sent as ∧ (sent as).length ≤ (received as).length + bound := by
  have heq := sent_eq h
  rw [empty_items, List.nil_append] at heq
  rw [heq, List.length_append]
  exact ⟨List.prefix_append _ _, Nat.add_le_add_left c.length_le _⟩

end Channel
end Orderbook
