import Mathlib.Logic.Function.Basic
import Mathlib.Data.List.Induction

/-!
# The dispatcher

`server/src/dispatcher.h`. A message is its descriptor and the fields of that type. A callback is
stored under the descriptor of the type it was registered for and casts what it is given to that
type; the cast is `none` when the assertion on its result fails.
-/

namespace IMServer.Net

/-- `CallbackT<T>`, with its type; `dispatcher.h:24–50`. -/
def CallbackT {D : Type} (T : D → Type) (A : Type) : Type := (d : D) × (T d → A)

section Dispatcher

variable {D : Type} [DecidableEq D] {T : D → Type} {A : Type}

/-- `CallbackT<T>::onMessage`; `dispatcher.h:39–46`. -/
def CallbackT.onMessage (cb : CallbackT T A) (message : (d : D) × T d) : Option A :=
  if h : message.1 = cb.1 then some (cb.2 (h ▸ message.2)) else none

/-- `dispatcher.h:52–91`. Every callback stands under its own descriptor. -/
structure ProtobufDispatcher (T : D → Type) (A : Type) where
  callbacks : D → Option (CallbackT T A) := fun _ => none
  defaultCallback : (d : D) × T d → A
  own : ∀ d cb, callbacks d = some cb → cb.1 = d := by intros; contradiction

namespace ProtobufDispatcher

/-- `dispatcher.h:79–84`. -/
def registerMessageCallback (self : ProtobufDispatcher T A) (d : D) (callback : T d → A) :
    ProtobufDispatcher T A where
  callbacks := Function.update self.callbacks d (some ⟨d, callback⟩)
  defaultCallback := self.defaultCallback
  own d' cb h := by
    by_cases hd : d' = d
    · subst hd
      rw [Function.update_self] at h
      rw [← Option.some.inj h]
    · rw [Function.update_of_ne hd] at h
      exact self.own d' cb h

/-- `dispatcher.h:64–77`. -/
def onProtobufMessage (self : ProtobufDispatcher T A) (message : (d : D) × T d) : Option A :=
  match self.callbacks message.1 with
  | some cb => cb.onMessage message
  | none => some (self.defaultCallback message)

/-- A type's own callback is called with the fields of the message. -/
theorem onProtobufMessage_register_self (self : ProtobufDispatcher T A) (d : D)
    (callback : T d → A) (m : T d) :
    (self.registerMessageCallback d callback).onProtobufMessage ⟨d, m⟩ = some (callback m) := by
  simp only [onProtobufMessage, registerMessageCallback, Function.update_self,
    CallbackT.onMessage, dif_pos]

/-- A registration changes nothing for the other types. -/
theorem onProtobufMessage_register_of_ne (self : ProtobufDispatcher T A) {d d' : D}
    (h : d' ≠ d) (callback : T d → A) (m : T d') :
    (self.registerMessageCallback d callback).onProtobufMessage ⟨d', m⟩ =
      self.onProtobufMessage ⟨d', m⟩ := by
  simp only [onProtobufMessage, registerMessageCallback, Function.update_of_ne h]

/-- A dispatcher with callbacks registered one after the other. -/
def registered (defaultCallback : (d : D) × T d → A) (callbacks : List (CallbackT T A)) :
    ProtobufDispatcher T A :=
  callbacks.foldl (fun self cb => self.registerMessageCallback cb.1 cb.2) { defaultCallback }

/-- Whatever has been registered, a message is given to the last callback registered for its type,
and to the default callback if there is none; the cast never fails. -/
theorem message_reaches_last_callback (defaultCallback : (d : D) × T d → A)
    (callbacks : List (CallbackT T A)) (d : D) (m : T d) :
    (∃ before callback after, callbacks = before ++ ⟨d, callback⟩ :: after ∧
        (∀ cb ∈ after, cb.1 ≠ d) ∧
        (registered defaultCallback callbacks).onProtobufMessage ⟨d, m⟩ = some (callback m)) ∨
      ((∀ cb ∈ callbacks, cb.1 ≠ d) ∧
        (registered defaultCallback callbacks).onProtobufMessage ⟨d, m⟩ =
          some (defaultCallback ⟨d, m⟩)) := by
  induction callbacks using List.reverseRecOn with
  | nil => exact .inr ⟨nofun, rfl⟩
  | append_singleton callbacks last ih =>
    have hreg : registered defaultCallback (callbacks ++ [last]) =
        (registered defaultCallback callbacks).registerMessageCallback last.1 last.2 := by
      rw [registered, List.foldl_append]
      rfl
    rw [hreg]
    obtain ⟨d', callback'⟩ := last
    by_cases hd : d' = d
    · subst hd
      refine .inl ⟨callbacks, callback', [], rfl, nofun, ?_⟩
      exact onProtobufMessage_register_self _ d' callback' m
    · rw [onProtobufMessage_register_of_ne _ (Ne.symm hd)]
      obtain ⟨before, callback, after, rfl, hafter, hcall⟩ | ⟨hnone, hcall⟩ := ih
      · refine .inl ⟨before, callback, after ++ [⟨d', callback'⟩], List.append_assoc .., ?_, hcall⟩
        intro cb hcb
        rcases List.mem_append.mp hcb with hcb | hcb
        · exact hafter cb hcb
        · rw [List.mem_singleton.mp hcb]
          exact hd
      · refine .inr ⟨?_, hcall⟩
        intro cb hcb
        rcases List.mem_append.mp hcb with hcb | hcb
        · exact hnone cb hcb
        · rw [List.mem_singleton.mp hcb]
          exact hd

end ProtobufDispatcher

end Dispatcher

end IMServer.Net
