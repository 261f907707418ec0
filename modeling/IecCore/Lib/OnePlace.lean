import IecCore.Lib.Transition

/-! # The one-place channel

A channel with room for one value: a send needs an empty place, a receive a full one. In every
reachable state the values received, followed by the one in the place, are the values sent.

* **`OnePlace`** — the place, and the history of what was sent and received.
* **`onePlace`** — the channel as a transition system: an action that the place does not allow has no
  step. -/

namespace IecCore

universe u

variable {T : Type u}

/-- A one-place channel with the history of its use: `sent` and `received` are written by every step
and read by none. -/
structure OnePlace (T : Type u) where
  /-- The value in the place, none when it is empty. -/
  content : Option T
  /-- The values sent, in order. -/
  sent : List T
  /-- The values received, in order. -/
  received : List T

/-- The actions of the channel: one end sends values, the other one receives them. -/
inductive PlaceAction (T : Type u)
  | send (value : T)
  | receive

/-- The steps of the channel: a send to a full place and a receive from an empty one have to
wait. -/
def onePlace : System (OnePlace T) (PlaceAction T) where
  init := ⟨none, [], []⟩
  step place action := match action, place.content with
    | .send value, none => some ⟨some value, place.sent ++ [value], place.received⟩
    | .send _, some _ => none
    | .receive, none => none
    | .receive, some value => some ⟨none, place.sent, place.received ++ [value]⟩

/-- **First in, first out.** In every reachable state the values received, followed by the one in
the place, are the values sent. -/
theorem onePlace_fifo {place : OnePlace T} (reach : onePlace.Reachable place) :
    place.received ++ place.content.toList = place.sent := by
  refine onePlace.reachable_invariant
    (P := fun place : OnePlace T => place.received ++ place.content.toList = place.sent)
    rfl ?_ reach
  rintro ⟨content, sent, received⟩ action t hs hstep
  cases action with
  | send value =>
      cases content with
      | none => cases hstep; simpa using hs
      | some held => cases hstep
  | receive =>
      cases content with
      | none => cases hstep
      | some held => cases hstep; simpa using hs

end IecCore
