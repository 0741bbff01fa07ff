/-!
# Requests whose answer may get lost

A caller sends a request to a server that keeps a state. The server may refuse it, and whatever it
does, the caller may see an error instead of the answer.
`Reply.send_cases` is the case split.
-/

inductive Reply where
  | answered
  /-- It takes effect and the caller sees an error. -/
  | lost (message : String)
  /-- It takes no effect and the caller sees an error. -/
  | failed (message : String)

def Reply.isLost : Reply → Bool
  | .lost _ => true
  | _ => false

def Reply.isFailed : Reply → Bool
  | .failed _ => true
  | _ => false

/-- The error that a caller sees: the server's own, or one of the connection. -/
inductive Reply.Failure (ε : Type) where
  | raised (e : ε)
  | broken (message : String)

namespace Reply

variable {σ ε α : Type}

def Failure.message (text : ε → String) : Failure ε → String
  | .raised e => text e
  | .broken message => message

/-- The state after a request that would lead to this outcome, and what the caller sees. -/
def send (s : σ) (outcome : Except ε (σ × α)) : Reply → σ × Except (Failure ε) α
  | .answered =>
    match outcome with
    | .ok (s', a) => (s', .ok a)
    | .error e => (s, .error (.raised e))
  | .lost message =>
    match outcome with
    | .ok (s', _) => (s', .error (.broken message))
    | .error _ => (s, .error (.broken message))
  | .failed message => (s, .error (.broken message))

theorem send_cases (reply : Reply) (s : σ) (outcome : Except ε (σ × α)) :
    (∃ e, reply.send s outcome = (s, .error e)) ∨
    ∃ s' a, outcome = .ok (s', a) ∧
      (reply.send s outcome = (s', .ok a) ∨ ∃ e, reply.send s outcome = (s', .error e)) := by
  cases reply with
  | answered =>
    cases outcome with
    | ok r => exact .inr ⟨r.1, r.2, rfl, .inl rfl⟩
    | error e => exact .inl ⟨.raised e, rfl⟩
  | lost message =>
    cases outcome with
    | ok r => exact .inr ⟨r.1, r.2, rfl, .inr ⟨.broken message, rfl⟩⟩
    | error e => exact .inl ⟨.broken message, rfl⟩
  | failed message => exact .inl ⟨.broken message, rfl⟩

variable {s : σ} {outcome : Except ε (σ × α)}

/-- What holds before a request and after its effect holds whatever becomes of it. -/
theorem send_keeps {P : σ → Prop} (reply : Reply) (hs : P s)
    (hok : ∀ s' a, outcome = .ok (s', a) → P s') : P (reply.send s outcome).1 := by
  rcases reply.send_cases s outcome with ⟨e, he⟩ | ⟨s', a, h, he | ⟨e, he⟩⟩ <;> rw [he]
  · exact hs
  all_goals exact hok s' a h

theorem eq_ok_of_send {reply : Reply} {a : α} (h : (reply.send s outcome).2 = .ok a) :
    outcome = .ok ((reply.send s outcome).1, a) := by
  rcases reply.send_cases s outcome with ⟨e, he⟩ | ⟨s', a, ho, he | ⟨e, he⟩⟩ <;> rw [he] at h ⊢ <;>
    cases h
  exact ho

end Reply
