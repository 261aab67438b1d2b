import ReviewDesk.Proofs.Outcomes
import ReviewDesk.Proofs.Requests

/-!
# Requests one after the other

What a service has in store after many requests, each of which comes with what it is
answered with: an id, a time, the words it may draw, and whether somebody else holds the
storage in the meantime.  Nothing is assumed of any of these.

A request leaves the store alone, or it is an order and has the effect of what it orders.
That is all an induction needs (`served_induction`), and since it says which request the
effect belongs to, it can use what was checked before the order was carried out.  A
connection with many requests is no more than this (`exists_served_of_serve`).

* `next_cases` — what a single request makes of a store;
* `effect_of_status` — an order that is reported as carried out was carried out;
* `served_induction` — what orders keep, all requests keep;
* `sound_served` — after all requests to a new service its store is sound.
-/

namespace ReviewDesk

namespace Http

/-- A request with what it is answered with. -/
structure Delivery where
  request : Request
  newId : String := ""
  now : Instant := .epoch
  /-- Whether somebody else holds the storage. -/
  isHeld : Bool := false
  words : Words

namespace Delivery

variable (d : Delivery) (s : Store)

/-- The response to a request, and the office after it. -/
def outcome : Response × Office := Service.respond d.newId d.now d.isHeld d.request ⟨s, d.words⟩

/-- The store after a request. -/
def next : Store := (d.outcome s).2.store

/-- A request leaves the store alone, or it is an order and has the effect of what it
orders. -/
theorem next_cases :
    d.next s = s ∨ ∃ op status name a,
      d.request.Orders op status name ∧ Effect d.now s op a (d.next s) := by
  unfold next outcome Service.respond
  rcases Service.route_cases d.now d.isHeld d.request ⟨s, d.words⟩ with
    ⟨response, hroute⟩ | ⟨op, status, name, horders, hroute⟩
  · rw [hroute]
    exact .inl rfl
  · rw [hroute, Service.operate]
    cases hrun : op.run d.now ⟨s, d.words⟩ with
    | ok a o => exact .inr ⟨op, status, name, a, horders, Operation.effect_of_ok hrun⟩
    | error f o => exact .inl (Operation.store_of_error hrun)

variable {d s}

/-- An order that finds the storage held is given up. -/
theorem status_of_isHeld {op : Operation} {status : Nat} {name : Option String}
    (horders : d.request.Orders op status name) (hheld : d.isHeld = true) :
    (d.outcome s).1.status = 408 := by
  simp only [outcome, Service.respond, Service.status_finish, hheld,
    Service.route_of_orders_held true horders]
  rfl

/-- An order whose response reports no failure was carried out, and the response shows the
answer. -/
theorem effect_of_status {op : Operation} {status : Nat} {name : Option String}
    (horders : d.request.Orders op status name) (hstatus : (d.outcome s).1.status < 400) :
    ∃ a, Effect d.now s op a (d.next s) ∧ (d.outcome s).1.body =
      some (name.elim a.toJson fun key => .record [(key, a.toJson)]) := by
  cases hheld : d.isHeld with
  | true =>
      rw [status_of_isHeld horders hheld] at hstatus
      exact absurd hstatus (by decide)
  | false =>
      simp only [next, outcome, Service.respond, hheld, Service.route_of_orders horders,
        Service.status_finish, Service.body_finish _ horders.method_ne_head,
        Service.operate] at hstatus ⊢
      cases hrun : op.run d.now ⟨s, d.words⟩ with
      | ok a o =>
          refine ⟨a, Operation.effect_of_ok hrun, ?_⟩
          exact congrArg some ((Service.envelope_of_orders horders).2 a)
      | error f o =>
          rw [hrun] at hstatus
          have hfailure : 400 ≤ f.status := by
            cases f <;> decide
          exact absurd hstatus (Nat.not_lt.2 hfailure)

end Delivery

end Http

namespace Store

open Http

/-- The store after requests. -/
def served (s : Store) (deliveries : List Delivery) : Store :=
  deliveries.foldl (fun s d => d.next s) s

/-- **Induction along requests.**  What holds at first and is kept by the effect of every
order holds after all requests. -/
theorem served_induction {P : Store → Prop} {s : Store} (first : P s)
    (step : ∀ {r : Request} {op status name now s a s'}, r.Orders op status name →
      Effect now s op a s' → P s → P s') (deliveries : List Delivery) :
    P (s.served deliveries) := by
  induction deliveries generalizing s with
  | nil => exact first
  | cons d later ih =>
      have hnext : P (d.next s) := by
        rcases d.next_cases s with hsame | ⟨op, status, name, a, horders, heffect⟩
        · rw [hsame]
          exact first
        · exact step horders heffect first
      exact ih hnext

/-- A new service has a sound store, and keeps it sound. -/
theorem sound_served (deliveries : List Delivery) : (served {} deliveries).Sound :=
  served_induction sound_empty (fun _ heffect hs => heffect.sound hs) deliveries

end Store

namespace Http.Service

/-- What a client sends over a connection is answered as some requests one after the
other. -/
theorem exists_served_of_serve (newId : String) (now : Instant) (isHeld : Bool)
    (bytes : List UInt8) (o : Office) :
    ∃ deliveries, (serve newId now isHeld bytes o).2.store = o.store.served deliveries := by
  have hreply : ∀ now bytes o, ∃ first : List Delivery,
      (reply newId now isHeld bytes o).2.store = o.store.served first := by
    intro now bytes o
    unfold reply
    cases Arrival.ofBytes bytes with
    | error refusal => exact ⟨[], rfl⟩
    | ok a => exact ⟨[⟨a.request, newId, now, isHeld, o.words⟩], rfl⟩
  have hall : ∀ room now next? o, ∃ deliveries : List Delivery,
      (goOn newId isHeld room now next? o).store = o.store.served deliveries := by
    intro room
    induction room with
    | zero =>
        intro now next? o
        cases next? <;> exact ⟨[], rfl⟩
    | succ room ih =>
        intro now next? o
        cases next? with
        | none => exact ⟨[], rfl⟩
        | some bytes =>
            obtain ⟨first, hfirst⟩ := hreply now bytes o
            obtain ⟨others, hothers⟩ := ih _ _ (reply newId now isHeld bytes o).2
            refine ⟨first ++ others, hothers.trans ?_⟩
            rw [hfirst]
            exact List.foldl_append.symm
  -- the first request is looked at like those behind it
  exact hall (bytes.length + 1) now (some bytes) o

end Http.Service

end ReviewDesk
