import Invisibool.Clipboard.X11

/-!
# Every write has a token of its own
-/

namespace Invisibool.Clipboard
open Text Relation

/-- The content that a call has given a token to. -/
def Call.content : Call → Option OwnedContent
  | .minted content => some content
  | .stored content => some content
  | _ => none

/-- The content that a request is about, if it is about the owner. -/
def Request.change : Request → Option (Option OwnedContent)
  | .appendTimestampProperty => none
  | .setSelectionOwner content => some (some content)
  | .setSelectionOwnerNone => some none

namespace X11

variable {ι : Type}

section

variable (s : X11 ι)

/-- The changes of the owner that wait for the server. -/
def changes : List (Option OwnedContent) := s.requests.filterMap Request.change

/-- The content has been sent to the server. -/
def Sent (content : OwnedContent) : Prop :=
  some content ∈ s.changes ∨ s.server.effective = some content

/-- No token is given twice. -/
structure Minted : Prop where
  below : ∀ i content, (s.calls i).content = some content →
    content.token.value < s.inner.nextToken
  apart : ∀ i j content content', (s.calls i).content = some content →
    (s.calls j).content = some content' → content.token = content'.token → i = j
  sentBelow : ∀ content, s.Sent content → content.token.value < s.inner.nextToken
  unsent : ∀ i content content', (s.calls i).content = some content → s.Sent content' →
    content.token ≠ content'.token

end

variable {s s' : X11 ι} {content : OwnedContent}

lemma changes_send {request : Request} :
    (s.send request).changes = s.changes ++ request.change.toList := by
  unfold changes send
  rw [List.filterMap_append, List.filterMap_cons]
  cases request.change <;> rfl

namespace Minted

/-- A step with which no content comes into a call or to the server. -/
lemma of_subset (hs : s.Minted)
    (hcalls : ∀ i content, (s'.calls i).content = some content → (s.calls i).content = some content)
    (hsent : ∀ content, s'.Sent content → s.Sent content)
    (hnext : s'.inner.nextToken = s.inner.nextToken) : s'.Minted where
  below i content h := hnext ▸ hs.below i content (hcalls i content h)
  apart i j content content' h h' := hs.apart i j content content' (hcalls i content h)
    (hcalls j content' h')
  sentBelow content h := hnext ▸ hs.sentBelow content (hsent content h)
  unsent i content content' h h' := hs.unsent i content content' (hcalls i content h)
    (hsent content' h')

/-- A call goes on with the content that it has, or without one. -/
lemma goOn [DecidableEq ι] (hs : s.Minted) {i : ι} {call : Call}
    (hcall : ∀ content, call.content = some content → (s.calls i).content = some content)
    (hsent : ∀ content, (s.setCall i call).Sent content → s.Sent content) :
    (s.setCall i call).Minted := by
  refine hs.of_subset ?_ hsent rfl
  intro j content h
  by_cases hji : j = i
  · rw [hji, calls_setCall_self] at h
    exact hji ▸ hcall content h
  · rwa [calls_setCall_of_ne hji] at h

/-- A call gets a new token. -/
lemma mint [DecidableEq ι] (hs : s.Minted) (i : ι) (text : Str) (time : Nat) :
    (s.next (.mint i text time)).Minted := by
  have hnew : ∀ c, (((s.next (.mint i text time)).calls i).content = some c) →
      c.token.value = s.inner.nextToken := by
    intro c h
    rw [next, calls_setCall_self] at h
    obtain rfl := Option.some.inj h
    rfl
  have hold : ∀ j c, j ≠ i → ((s.next (.mint i text time)).calls j).content = some c →
      (s.calls j).content = some c := by
    intro j c hji h
    rwa [next, calls_setCall_of_ne hji] at h
  constructor
  · intro j c h
    change c.token.value < s.inner.nextToken + 1
    by_cases hji : j = i
    · rw [hji] at h
      have := hnew c h
      omega
    · have := hs.below j c (hold j c hji h)
      omega
  · intro j k c c' h h' htoken
    by_cases hji : j = i
    · by_cases hki : k = i
      · exact hji.trans hki.symm
      · rw [hji] at h
        have hc := hnew c h
        have hc' := hs.below k c' (hold k c' hki h')
        rw [htoken] at hc
        omega
    · by_cases hki : k = i
      · rw [hki] at h'
        have hc := hs.below j c (hold j c hji h)
        have hc' := hnew c' h'
        rw [htoken] at hc
        omega
      · exact hs.apart j k c c' (hold j c hji h) (hold k c' hki h') htoken
  · intro c h
    exact Nat.lt_succ_of_lt (hs.sentBelow c h)
  · intro j c c' h h' htoken
    have hc' := hs.sentBelow c' h'
    by_cases hji : j = i
    · rw [hji] at h
      have hc := hnew c h
      rw [htoken] at hc
      omega
    · exact hs.unsent j c c' (hold j c hji h) h' htoken

/-- The token of a call goes to the server, and the call is over. -/
lemma setOwner [DecidableEq ι] (hs : s.Minted) {i : ι} (hi : s.calls i = .stored content) :
    (s.next (.setOwner i content)).Minted := by
  have hcontent : (s.calls i).content = some content := by
    rw [hi]
    rfl
  have hold : ∀ j c, ((s.next (.setOwner i content)).calls j).content = some c →
      j ≠ i ∧ (s.calls j).content = some c := by
    intro j c h
    by_cases hji : j = i
    · rw [hji, next, calls_setCall_self] at h
      cases h
    · rw [next, calls_setCall_of_ne hji] at h
      exact ⟨hji, h⟩
  have hsent : ∀ c, (s.next (.setOwner i content)).Sent c → c = content ∨ s.Sent c := by
    intro c h
    have hchanges : (s.next (.setOwner i content)).changes = s.changes ++ [some content] :=
      changes_send
    cases h with
    | inl h =>
      rw [hchanges, List.mem_append, List.mem_singleton, Option.some.injEq] at h
      exact h.symm.imp id .inl
    | inr h => exact .inr (.inr h)
  constructor
  · intro j c h
    exact hs.below j c (hold j c h).2
  · intro j k c c' h h' htoken
    exact hs.apart j k c c' (hold j c h).2 (hold k c' h').2 htoken
  · intro c h
    cases hsent c h with
    | inl h => exact h ▸ hs.below i content hcontent
    | inr h => exact hs.sentBelow c h
  · intro j c c' h h' htoken
    obtain ⟨hji, hj⟩ := hold j c h
    cases hsent c' h' with
    | inl h => exact hji (hs.apart j i c content hj hcontent (h ▸ htoken))
    | inr h => exact hs.unsent j c c' hj h htoken

/-- What the server serves has been sent before. -/
lemma serve (hs : s.Minted) {request : Request} (hhead : s.requests.head? = some request) :
    Minted { s.reply (s.server.serve request) with requests := s.requests.tail } := by
  obtain ⟨rest, hrequests⟩ := List.head?_eq_some_iff.mp hhead
  have hrest : ∀ c, some c ∈ rest.filterMap Request.change → s.Sent c := by
    intro c h
    refine .inl ?_
    rw [changes, hrequests]
    simp only [List.mem_filterMap, List.mem_cons] at h ⊢
    obtain ⟨r, hr, hc⟩ := h
    exact ⟨r, .inr hr, hc⟩
  refine hs.of_subset (fun _ _ h => h) ?_ rfl
  intro c h
  rw [hrequests] at h
  cases h with
  | inl h => exact hrest c h
  | inr h =>
    cases request with
    | appendTimestampProperty => exact .inr h
    | setSelectionOwner content =>
      simp only [reply, Server.serve] at h
      by_cases hr : s.server.Refuses content.acquiredAt
      · rw [Server.setSelectionOwner_refused hr] at h
        exact .inr h
      · rw [Server.setSelectionOwner_effective hr] at h
        obtain rfl : content = c := Option.some.inj h
        refine .inl ?_
        rw [changes, hrequests]
        exact List.mem_cons_self
    | setSelectionOwnerNone =>
      simp only [reply, Server.serve] at h
      rw [Server.effective_setSelectionOwner_none] at h
      exact .inr h

lemma next [DecidableEq ι] (hs : s.Minted) {a : Act ι} (he : s.Enabled a) : (s.next a).Minted := by
  have hstart : ∀ {i : ι} {call : Call} {t : X11 ι}, t.Minted → call.content = none →
      (∀ c, (t.setCall i call).Sent c → t.Sent c) → (t.setCall i call).Minted := by
    intro i call t ht hcall
    refine ht.goOn fun c h => ?_
    rw [hcall] at h
    cases h
  have hinner : ∀ {inner : X11Inner}, inner.nextToken = s.inner.nextToken →
      (s.withInner inner).Minted := fun h => hs.of_subset (fun _ _ h => h) (fun _ h => h) h
  have hsend : ∀ {request : Request}, (∀ c, request.change ≠ some (some c)) →
      (s.send request).Minted := by
    intro request h
    refine hs.of_subset (fun _ _ h => h) (fun c hc => ?_) rfl
    cases hc with
    | inl hc =>
      rw [changes_send, List.mem_append, Option.mem_toList] at hc
      exact .inl (hc.resolve_right (h c))
    | inr hc => exact .inr hc
  cases a with
  | takeSlot i text => exact hstart (hinner rfl) rfl fun _ h => h
  | fetch i text => exact hstart (hsend fun c h => by cases h) rfl fun _ h => h
  | wake i text time => exact hstart (hinner rfl) rfl fun _ h => h
  | timeOut i text => exact hstart (hinner rfl) rfl fun _ h => h
  | mint i text time => exact hs.mint i text time
  | store i content =>
    have hstored : (s.withInner { s.inner with owned := some content }).Minted := hinner rfl
    refine hstored.goOn (fun c h => ?_) fun _ h => h
    change (s.calls i).content = _
    rw [show s.calls i = _ from he]
    exact h
  | setOwner i content => exact hs.setOwner he
  | drop i => exact hstart (hinner rfl) rfl fun _ h => h
  | release i => exact hstart (hsend fun c h => by cases h) rfl fun _ h => h
  | bump i => exact hstart (hinner rfl) rfl fun _ h => h
  | serve request => exact hs.serve he
  | «foreign» owner time =>
    refine hs.of_subset (fun _ _ h => h) (fun c h => ?_) rfl
    rwa [Sent, X11.next, reply, Server.effective_setSelectionOwner_none] at h
  | ownerGone => exact hs.of_subset (fun _ _ h => h) (fun _ h => h) rfl
  | tick later => exact hs.of_subset (fun _ _ h => h) (fun _ h => h) rfl
  | fillSlot time =>
    exact hs.of_subset (fun _ _ h => h) (fun _ h => h) (X11Inner.nextToken_handleTimestampNotify _ _)
  | selectionClear => exact hs.of_subset (fun _ _ h => h) (fun _ h => h) rfl
  | count owner cause => exact hs.of_subset (fun _ _ h => h) (fun _ h => h) rfl
  | emit owner cause cc => exact hs.of_subset (fun _ _ h => h) (fun _ h => h) rfl

end Minted

theorem Initial.minted (h : s.Initial) : s.Minted where
  below i content hi := by
    rw [h.calls i] at hi
    cases hi
  apart i j content content' hi := by
    rw [h.calls i] at hi
    cases hi
  sentBelow content hi := by
    cases hi with
    | inl hi =>
      rw [changes, h.requests] at hi
      cases hi
    | inr hi =>
      rw [h.effective] at hi
      cases hi
  unsent i content content' hi := by
    rw [h.calls i] at hi
    cases hi

/-- In no run is a token given twice. -/
theorem minted_of_run [DecidableEq ι] {allowed : X11 ι → Act ι → Prop} (hs : s.Minted)
    (hrun : ReflTransGen (Step allowed) s s') : s'.Minted := by
  induction hrun with
  | refl => exact hs
  | tail _ hstep ih =>
    obtain ⟨a, he, -, rfl⟩ := hstep
    exact ih.next he

end X11

end Invisibool.Clipboard
