import HonorFB.Vbl.Delivery

/-!
# Old VBL handles

Every VBL registration hands out the same handle, the address of `fVBLProc`. So a client whose
registration was ended or replaced holds the handle of whoever registered last, and its calls reach
that registration. They never reach one made later, and they change nothing at all exactly when
there is no proc to call or the state asked for is the state already set (`staleCall_outcome`).
-/

namespace HonorFB

structure ClientCall where
  client : Nat
  call : Call
  deriving DecidableEq, Repr

def Call.Uses (handle : Ptr) (c : Call) : Prop :=
  c = .unregisterInterrupt handle ∨ ∃ state, c = .setInterruptState handle state

namespace V6

/-- The driver after the calls of the clients, in the order they were made. Ticks in between leave
the subscription alone, and what their callbacks call is part of the history. -/
def serve (d : V6) (history : List ClientCall) : V6 := d.calls (history.map ClientCall.call)

/-- The client received the handle from a VBL registration that was unregistered or replaced
since. -/
def HoldsStale (d : V6) (history : List ClientCall) (client : Nat) (handle : Ptr) : Prop :=
  ∃ before registration since, history = before ++ ⟨client, registration⟩ :: since ∧
    registration.isVblRegistration = true ∧
    ((d.serve before).call registration).2 = .kIOReturnSuccess (some handle) ∧
    ∃ c ∈ since, c.call.isVblRegistration = true ∨ c.call = .unregisterInterrupt handle

/-- A tick calls the same registrations in both states. -/
def SameDelivery (d d' : V6) : Prop :=
  ∀ kern sender clock callback, (World.vblTimerFired ⟨d, kern⟩ sender clock callback).2 =
    (World.vblTimerFired ⟨d', kern⟩ sender clock callback).2

/-- There is no proc to call, or the call sets the state that is set. -/
def Inert (d : V6) (c : Call) : Prop :=
  d.fVBLProc = 0 ∨
    ∃ state, c = .setInterruptState d.vblHandle state ∧ (state != 0) = d.fVBLEnabled

/-- The states deliver alike now and after any calls: neither has a proc, or they agree in the four
members of the subscription. -/
def Alike (d d' : V6) : Prop :=
  d'.vblHandle = d.vblHandle ∧
    (d.fVBLProc = 0 ∧ d'.fVBLProc = 0 ∨
      d'.fVBLProc = d.fVBLProc ∧ d'.fVBLTarget = d.fVBLTarget ∧ d'.fVBLRef = d.fVBLRef ∧
        d'.fVBLEnabled = d.fVBLEnabled)

theorem sameDelivery_iff (d d' : V6) : SameDelivery d d' ↔ d.invoked = d'.invoked := by
  constructor
  · intro h
    exact h .empty none ⟨0, id⟩ []
  · intro h _ _ _ _
    exact h

theorem Alike.invoked_eq {d d' : V6} (h : Alike d d') : d.invoked = d'.invoked := by
  obtain ⟨-, ⟨hproc, hproc'⟩ | ⟨hproc, htarget, href, henabled⟩⟩ := h
  · simp [invoked, hproc, hproc']
  · simp only [invoked, hproc, htarget, href, henabled]

theorem Alike.call {d d' : V6} (h : Alike d d') (c : Call) :
    Alike (d.call c).1 (d'.call c).1 := by
  have hhandle := h.1
  by_cases hvbl : c.isVbl d.vblHandle = true
  · cases c with
    | registerForInterruptType interruptType proc target ref interruptRef =>
      have htype : (interruptType == kIOFBVBLInterruptType) = true := hvbl
      simp only [V6.call, registerForInterruptType, htype, if_true]
      exact ⟨hhandle, Or.inr ⟨rfl, rfl, rfl, rfl⟩⟩
    | unregisterInterrupt interruptRef =>
      have heq : (interruptRef == d.vblHandle) = true := hvbl
      simp only [V6.call, unregisterInterrupt, hhandle, heq, if_true]
      exact ⟨rfl, Or.inl ⟨rfl, rfl⟩⟩
    | setInterruptState interruptRef state =>
      have heq : (interruptRef == d.vblHandle) = true := hvbl
      simp only [V6.call, setInterruptState, hhandle, heq, if_true]
      refine ⟨rfl, ?_⟩
      rcases h.2 with hnone | ⟨hproc, htarget, href, -⟩
      · exact Or.inl hnone
      · exact Or.inr ⟨hproc, htarget, href, rfl⟩
  · have hvbl' : ¬c.isVbl d'.vblHandle = true := by rwa [hhandle]
    rw [call_of_not_isVbl d hvbl, call_of_not_isVbl d' hvbl']
    exact h

theorem Alike.calls (cs : List Call) : ∀ {d d' : V6}, Alike d d' →
    Alike (d.calls cs) (d'.calls cs) := by
  induction cs with
  | nil => intro d d' h; exact h
  | cons c cs ih => intro d d' h; exact ih (h.call c)

/-- A registration forgets whatever was there. -/
theorem call_registration_alike {d d' : V6} (hhandle : d'.vblHandle = d.vblHandle) {c : Call}
    (hc : c.isVblRegistration = true) : Alike (d.call c).1 (d'.call c).1 := by
  cases c with
  | registerForInterruptType interruptType proc target ref interruptRef =>
    have htype : (interruptType == kIOFBVBLInterruptType) = true := hc
    simp only [V6.call, registerForInterruptType, htype, if_true]
    exact ⟨hhandle, Or.inr ⟨rfl, rfl, rfl, rfl⟩⟩
  | unregisterInterrupt interruptRef => cases hc
  | setInterruptState interruptRef state => cases hc

theorem calls_append (d : V6) (a b : List Call) : d.calls (a ++ b) = (d.calls a).calls b :=
  List.foldl_append

theorem serve_append (d : V6) (a b : List ClientCall) :
    d.serve (a ++ b) = (d.serve a).calls (b.map ClientCall.call) := by
  unfold serve
  rw [List.map_append, calls_append]

theorem calls_registration_alike {d d' : V6} (hhandle : d'.vblHandle = d.vblHandle)
    {cs : List Call} (hcs : ∃ c ∈ cs, c.isVblRegistration = true) :
    Alike (d.calls cs) (d'.calls cs) := by
  obtain ⟨c, hmem, hc⟩ := hcs
  obtain ⟨before, after, rfl⟩ := List.append_of_mem hmem
  rw [calls_append, calls_append]
  refine Alike.calls after (call_registration_alike ?_ hc)
  rw [(calls_sameClock before d').vblHandle, (calls_sameClock before d).vblHandle, hhandle]

/-- The handle every VBL registration hands out. -/
theorem HoldsStale.handle_eq {d : V6} {history : List ClientCall} {client : Nat} {handle : Ptr}
    (h : HoldsStale d history client handle) : handle = d.vblHandle := by
  obtain ⟨before, registration, since, -, hvbl, hreply, -⟩ := h
  have hsame : (d.serve before).vblHandle = d.vblHandle := (calls_sameClock _ d).vblHandle
  cases registration with
  | registerForInterruptType interruptType proc target ref interruptRef =>
    have htype : (interruptType == kIOFBVBLInterruptType) = true := hvbl
    simp only [V6.call, registerForInterruptType, htype, if_true] at hreply
    cases interruptRef with
    | false => simp at hreply
    | true =>
      simp only [if_true, Reply.kIOReturnSuccess.injEq, Option.some.injEq] at hreply
      rw [← hreply, hsame]
  | unregisterInterrupt interruptRef => cases hvbl
  | setInterruptState interruptRef state => cases hvbl

theorem Inert.alike {d : V6} {c : Call} (huses : c.Uses d.vblHandle) (h : Inert d c) :
    Alike (d.call c).1 d := by
  rcases huses with rfl | ⟨state, rfl⟩
  · simp only [V6.call, unregisterInterrupt, beq_self_eq_true, if_true]
    rcases h with hproc | ⟨state, hc, -⟩
    · exact ⟨rfl, Or.inl ⟨rfl, hproc⟩⟩
    · cases hc
  · simp only [V6.call, setInterruptState, beq_self_eq_true, if_true]
    rcases h with hproc | ⟨state', hc, henabled⟩
    · exact ⟨rfl, Or.inl ⟨hproc, hproc⟩⟩
    · obtain ⟨-, rfl⟩ := Call.setInterruptState.inj hc
      exact ⟨rfl, Or.inr ⟨rfl, rfl, rfl, henabled.symm⟩⟩

/-- A call that is not inert is noticed, at the latest when the state is set again. -/
theorem inert_of_sameDelivery {d : V6} {c : Call} (huses : c.Uses d.vblHandle)
    (h : ∀ later : List Call, ((d.call c).1.calls later).invoked = (d.calls later).invoked) :
    Inert d c := by
  by_cases hproc : d.fVBLProc = 0
  · exact Or.inl hproc
  · rcases huses with rfl | ⟨state, rfl⟩
    · have hset := h [.setInterruptState d.vblHandle 1]
      simp [calls, call, unregisterInterrupt, setInterruptState, invoked, hproc] at hset
    · have hnow := h []
      simp only [calls, call, setInterruptState, invoked, List.foldl_nil, beq_self_eq_true,
        if_true] at hnow
      refine Or.inr ⟨state, rfl, ?_⟩
      cases hstate : (state != 0) <;> cases henabled : d.fVBLEnabled <;>
        simp [hstate, henabled, hproc] at hnow ⊢

/-- **A call with an old handle never touches a registration made later, and changes no delivery at
all exactly when it is inert where it is made.** -/
theorem staleCall_outcome (d : V6) (history : List ClientCall) (client : Nat) (handle : Ptr)
    (hstale : HoldsStale d history client handle) (c : Call) (huses : c.Uses handle) :
    handle = d.vblHandle ∧
    (∀ later : List ClientCall, (∃ c' ∈ later, c'.call.isVblRegistration = true) →
      SameDelivery (d.serve (history ++ ⟨client, c⟩ :: later)) (d.serve (history ++ later))) ∧
    ((∀ later : List ClientCall,
        SameDelivery (d.serve (history ++ ⟨client, c⟩ :: later)) (d.serve (history ++ later))) ↔
      Inert (d.serve history) c) := by
  have hhandle := hstale.handle_eq
  have hsame : (d.serve history).vblHandle = d.vblHandle := (calls_sameClock _ d).vblHandle
  have huses' : c.Uses (d.serve history).vblHandle := by rwa [hsame, ← hhandle]
  have hwith : ∀ later : List ClientCall, d.serve (history ++ ⟨client, c⟩ :: later) =
      ((d.serve history).call c).1.calls (later.map ClientCall.call) :=
    fun later => serve_append d history (⟨client, c⟩ :: later)
  simp only [hwith, serve_append, sameDelivery_iff]
  refine ⟨hhandle, fun later hlater => ?_, fun h => ?_, fun h later => ?_⟩
  · obtain ⟨c', hc', hregisters⟩ := hlater
    refine (calls_registration_alike ?_ ⟨c'.call, List.mem_map_of_mem hc', hregisters⟩).invoked_eq
    exact (call_sameClock _ c).vblHandle.symm
  · refine inert_of_sameDelivery huses' fun later => ?_
    have hlater := h (later.map (ClientCall.mk client))
    rwa [List.map_map, show ClientCall.call ∘ ClientCall.mk client = id from rfl, List.map_id]
      at hlater
  · exact (Alike.calls _ (h.alike huses')).invoked_eq

/-- A started driver, with two clients that registered one after the other. -/
def startedV6 : V6 := ((zeroed 0x1000).start honorConsole ⟨0, id⟩ true).1

def twoClients : List ClientCall :=
  [⟨1, .registerForInterruptType kIOFBVBLInterruptType 0x2000 0 0 true⟩,
    ⟨2, .registerForInterruptType kIOFBVBLInterruptType 0x3000 0 0 true⟩]

theorem twoClients_holdsStale : HoldsStale startedV6 twoClients 1 0x1000 :=
  ⟨[], _, _, rfl, rfl, rfl, _, List.mem_cons_self, Or.inl rfl⟩

theorem staleCall_outcome_twoClients :
    (0x1000 : Ptr) = startedV6.vblHandle ∧
    (∀ later : List ClientCall, (∃ c' ∈ later, c'.call.isVblRegistration = true) →
      SameDelivery
        (startedV6.serve (twoClients ++ ⟨1, .setInterruptState 0x1000 1⟩ :: later))
        (startedV6.serve (twoClients ++ later))) ∧
    ((∀ later : List ClientCall,
        SameDelivery
          (startedV6.serve (twoClients ++ ⟨1, .setInterruptState 0x1000 1⟩ :: later))
          (startedV6.serve (twoClients ++ later))) ↔
      Inert (startedV6.serve twoClients) (.setInterruptState 0x1000 1)) :=
  staleCall_outcome startedV6 twoClients 1 0x1000 twoClients_holdsStale _ (Or.inr ⟨1, rfl⟩)

/-- The first client unregisters with the handle it still holds, and the second gets no more
ticks. -/
theorem staleUnregister_silences :
    (startedV6.serve twoClients).invoked = [⟨0x3000, 0, 0⟩] ∧
    HoldsStale startedV6 twoClients 1 0x1000 ∧
    ¬SameDelivery (startedV6.serve (twoClients ++ [⟨1, .unregisterInterrupt 0x1000⟩]))
      (startedV6.serve twoClients) := by
  refine ⟨rfl, twoClients_holdsStale, fun h => ?_⟩
  have hinvoked := (sameDelivery_iff _ _).1 h
  exact absurd hinvoked (by decide)

end V6

end HonorFB
