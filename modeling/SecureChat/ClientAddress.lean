import SecureChat.ChatClient
import SecureChat.JsonText

set_option autoImplicit false

/-!
# The host the client connects to

`m_server_address` outlives an attempt, and `look_up_host_infos` sets it only where
the lookup has an IPv4 address.
-/
namespace SecureChat.ClientAddress
open Runs QtText QtJson QtSocket ChatClient
open ClientHandShaker (LongLongReader ConnectionResult)

/-- `connecting_to_host` passes `m_server_address` to `connectToHost`, and is called
at the end of every lookup without an error; otherwise the attempt is answered with
an error. -/
def ConnectsToIts (c : Client) : Event → Client → Prop
  | .lookedUp _ (.found addresses), c' => c'.model.serverAddress ∈ addresses
  | .lookedUp _ (.failed _), c' => c'.model.phase = .idle ∧
      ∃ error secured, c'.responses = c.responses ++ [⟨.unexpected error, secured⟩]
  | _, _ => True

def HasIpv4 : Event → Prop
  | .lookedUp _ (.found addresses) => ∃ a ∈ addresses, a.protocol = .ipv4
  | _ => True

/-- `QHostInfo` has IPv4 and IPv6 addresses. -/
def IpAddresses : Event → Prop
  | .lookedUp _ (.found addresses) => ∀ a ∈ addresses, a.protocol = .ipv4 ∨ a.protocol = .ipv6
  | _ => True

instance : DecidablePred HasIpv4
  | .lookedUp _ (.found addresses) =>
    inferInstanceAs (Decidable (∃ a ∈ addresses, a.protocol = .ipv4))
  | .lookedUp _ (.failed _) | .clickConnect | .clickSend _ | .editUser _ _ | .editServer _
  | .connected | .encrypted | .errorOccurred _ _ _ | .disconnected | .readyRead _
  | .waitReturns _ _ => isTrue trivial

instance : DecidablePred IpAddresses
  | .lookedUp _ (.found addresses) =>
    inferInstanceAs (Decidable (∀ a ∈ addresses, a.protocol = .ipv4 ∨ a.protocol = .ipv6))
  | .lookedUp _ (.failed _) | .clickConnect | .clickSend _ | .editUser _ _ | .editServer _
  | .connected | .encrypted | .errorOccurred _ _ _ | .disconnected | .readyRead _
  | .waitReturns _ _ => isTrue trivial

/-- What a step makes of `m_server_address`. -/
def nextAddress (old : HostAddress) : Event → HostAddress
  | .lookedUp _ (.found addresses) => ipv4Address old addresses
  | .editServer _ => ⟨.unknown, []⟩
  | _ => old

/-! ### The address a step leaves -/

variable {mode : ConnectionMode} {d : Utf8Decoder} {codec : JsonCodec} {reader : LongLongReader}

theorem serverAddress_present (origin : Origin)
    (method : ClientHandShaker.TcpPresenter → ClientHandShaker.TcpPresenter) (c : Client) :
    (present codec origin method c).model.serverAddress = c.model.serverAddress := by
  rw [(called_present codec origin method c).model]
  rfl

theorem serverAddress_responds (c : Client) (result : ConnectionResult) :
    (handleConnectResponse codec c result).model.serverAddress = c.model.serverAddress :=
  serverAddress_present _ _ _

theorem serverAddress_receives (c : Client) (messages : List QString) :
    (messages.foldl (handleMsgReception codec reader) c).model.serverAddress =
      c.model.serverAddress := by
  induction messages generalizing c with
  | nil => rfl
  | cons message messages ih =>
    rw [List.foldl_cons, ih]
    exact serverAddress_present _ _ _

theorem serverAddress_sends (c : Client) (text : QString) :
    (onSendBtnClicked codec c text).model.serverAddress = c.model.serverAddress := by
  unfold onSendBtnClicked
  split
  · exact serverAddress_present _ _ _
  · rfl

theorem serverAddress_clicks (c : Client) :
    (onConnectBtnClicked c).model.serverAddress = c.model.serverAddress := by
  unfold onConnectBtnClicked ClientModel.disconnect
  split
  · rfl
  · dsimp only
    split <;> rfl

theorem serverAddress_errs (c : Client) (error : SocketError) (state : SocketState)
    (text : QString) :
    (errorOccurred mode codec c error state text).model.serverAddress = c.model.serverAddress := by
  unfold errorOccurred
  cases mode with
  | tcp =>
    cases error with
    | connectionRefused => exact serverAddress_responds _ _
    | remoteHostClosed | other _ => rfl
  | ssl =>
    change (handleConnectResponse codec (handleConnectResponse codec _ _) _).model.serverAddress = _
    rw [serverAddress_responds, serverAddress_responds]
    rfl

theorem serverAddress_returns {c c' : Client} {ok : Bool} {text : QString}
    (hs : waitReturns mode codec c ok text = some c') :
    c'.model.serverAddress = c.model.serverAddress := by
  unfold waitReturns at hs
  split at hs
  · cases hs
  · split at hs
    · cases hs
      cases ok <;> exact serverAddress_responds _ _
    · cases hs
  · split at hs
    · cases hs
      cases ok <;> rfl
    · cases hs
  · split at hs
    · cases hs
      cases ok with
      | true => exact serverAddress_responds _ _
      | false => rfl
    · cases hs
  · cases hs

theorem serverAddress_step {c c' : Client} {e : Event}
    (hs : step mode d codec reader c e = some c') :
    c'.model.serverAddress = nextAddress c.model.serverAddress e := by
  cases e with
  | waitReturns ok text => exact serverAddress_returns hs
  | lookedUp i host =>
    obtain ⟨_, ⟨⟩⟩ := Option.ite_none_right_eq_some.mp hs
    cases host with
    | failed error => exact serverAddress_responds _ _
    | found addresses => rfl
  | clickConnect =>
    obtain ⟨_, ⟨⟩⟩ := Option.ite_none_right_eq_some.mp hs
    exact serverAddress_clicks c
  | clickSend text =>
    obtain ⟨_, ⟨⟩⟩ := Option.ite_none_right_eq_some.mp hs
    exact serverAddress_sends c text
  | errorOccurred error state text =>
    obtain ⟨_, ⟨⟩⟩ := Option.ite_none_right_eq_some.mp hs
    exact serverAddress_errs c error state text
  | readyRead chunk =>
    obtain ⟨_, ⟨⟩⟩ := Option.ite_none_right_eq_some.mp hs
    exact serverAddress_receives c _
  | editUser _ _ | editServer _ | connected | encrypted | disconnected =>
    obtain ⟨_, ⟨⟩⟩ := Option.ite_none_right_eq_some.mp hs
    rfl

/-! ### Which addresses it can be -/

theorem ipv4Address_of_none {addresses : List HostAddress}
    (hnone : ¬ ∃ a ∈ addresses, a.protocol = .ipv4) (old : HostAddress) :
    ipv4Address old addresses = old := by
  induction addresses with
  | nil => rfl
  | cons a addresses ih =>
    rw [List.exists_mem_cons_iff, not_or] at hnone
    rw [ipv4Address, List.foldl_cons, if_neg hnone.1]
    exact ih hnone.2

theorem ipv4Address_of_mem {addresses : List HostAddress}
    (h : ∃ a ∈ addresses, a.protocol = .ipv4) (old : HostAddress) :
    ipv4Address old addresses ∈ addresses ∧ (ipv4Address old addresses).protocol = .ipv4 := by
  induction addresses generalizing old with
  | nil =>
    obtain ⟨_, hmem, _⟩ := h
    cases hmem
  | cons a addresses ih =>
    rw [ipv4Address, List.foldl_cons]
    by_cases hlater : ∃ b ∈ addresses, b.protocol = .ipv4
    · obtain ⟨hmem, hipv4⟩ := ih hlater (if a.protocol = .ipv4 then a else old)
      exact ⟨List.mem_cons_of_mem _ hmem, hipv4⟩
    · have hipv4 := ((List.exists_mem_cons_iff _ _ _).mp h).resolve_right hlater
      have hkept := ipv4Address_of_none hlater a
      rw [if_pos hipv4, show addresses.foldl _ a = a from hkept]
      exact ⟨List.mem_cons_self, hipv4⟩

/-- Never set, or set by a lookup. -/
def NeverIpv6 (c : Client) : Prop :=
  c.model.serverAddress.protocol = .unknown ∨ c.model.serverAddress.protocol = .ipv4

theorem neverIpv6_step {c c' : Client} {e : Event} (h : NeverIpv6 c)
    (hs : step mode d codec reader c e = some c') : NeverIpv6 c' := by
  unfold NeverIpv6
  rw [serverAddress_step hs]
  cases e with
  | lookedUp i host =>
    cases host with
    | failed error => exact h
    | found addresses =>
      by_cases hipv4 : ∃ a ∈ addresses, a.protocol = .ipv4
      · exact .inr (ipv4Address_of_mem hipv4 _).2
      · rw [nextAddress, ipv4Address_of_none hipv4]
        exact h
  | editServer settings => exact .inl rfl
  | clickConnect | clickSend _ | editUser _ _ | connected | encrypted | errorOccurred _ _ _
  | disconnected | readyRead _ | waitReturns _ _ => exact h

theorem connectsToIts_iff {c c' : Client} {e : Event} (h : NeverIpv6 c) (hips : IpAddresses e)
    (hs : step mode d codec reader c e = some c') : ConnectsToIts c e c' ↔ HasIpv4 e := by
  cases e with
  | lookedUp i host =>
    cases host with
    | failed error =>
      obtain ⟨hguard, ⟨⟩⟩ := Option.ite_none_right_eq_some.mp hs
      have hacted := acted_unexpected codec
        { c with model := { c.model with lookups := c.model.lookups.eraseIdx i } }
        "HOST NOT FOUND".toList
      refine ⟨fun _ => trivial, fun _ => ⟨?_, _, _, hacted.responses⟩⟩
      exact (congrArg ClientModel.phase hacted.model).trans hguard.1
    | found addresses =>
      have haddress : c'.model.serverAddress = ipv4Address c.model.serverAddress addresses :=
        serverAddress_step hs
      change c'.model.serverAddress ∈ addresses ↔ ∃ a ∈ addresses, a.protocol = .ipv4
      rw [haddress]
      constructor
      · intro hmem
        by_contra hipv4
        -- the address of an earlier lookup, which was IPv4, or none at all
        rw [ipv4Address_of_none hipv4] at hmem
        rcases hips _ hmem with hip | hip
        · exact hipv4 ⟨_, hmem, hip⟩
        · rcases h with hold | hold
          · rw [hip] at hold
            cases hold
          · exact hipv4 ⟨_, hmem, hold⟩
      · exact fun hipv4 => (ipv4Address_of_mem hipv4 _).1
  | clickConnect | clickSend _ | editUser _ _ | editServer _ | connected | encrypted
  | errorOccurred _ _ _ | disconnected | readyRead _ | waitReturns _ _ => exact Iff.rfl

/-- Every connection of a run is made to an address of the lookup it follows, if and
only if every lookup of the run that ends without an error has an IPv4 address. -/
theorem connects_to_its_iff (mode : ConnectionMode) (d : Utf8Decoder) (codec : JsonCodec)
    (reader : LongLongReader) (settings : Settings) (username : QString) (fontColor : UInt32)
    (events : List Event)
    (hips : Along (step mode d codec reader) (fun _ e => IpAddresses e)
      (start settings username fontColor) events) :
    Along (step mode d codec reader)
        (fun c e => ∀ c', step mode d codec reader c e = some c' → ConnectsToIts c e c')
        (start settings username fontColor) events ↔
      Along (step mode d codec reader) (fun _ e => HasIpv4 e)
        (start settings username fontColor) events := by
  refine along_step_congr (I := NeverIpv6) ?_ ?_ (.inl rfl) hips
  · exact fun c e c' h _ hs => neverIpv6_step h hs
  · exact fun c e c' h hip hs => connectsToIts_iff h hip hs

theorem connects_to_its_localhost :
    Along (step .tcp Utf8Decoding.qtDecoder JsonText.jsonCodec ClientHandShaker.qtReader)
      (fun c e => ∀ c', step .tcp Utf8Decoding.qtDecoder JsonText.jsonCodec
        ClientHandShaker.qtReader c e = some c' → ConnectsToIts c e c')
      (start oneServer "me".toList 0) (.clickConnect :: connects) :=
  (connects_to_its_iff .tcp Utf8Decoding.qtDecoder JsonText.jsonCodec ClientHandShaker.qtReader
    oneServer "me".toList 0 (.clickConnect :: connects) (by decide)).mpr (by decide)

def ipv6Only : Event := .lookedUp 0 (.found [⟨.ipv6, "::1".toList⟩])

/-- An attempt that fails, and the next one's lookup is about to end. -/
def asksAgain : List Event :=
  [.clickConnect, .lookedUp 0 localhost, .waitReturns false [], .clickConnect]

/-- The second host has no IPv4 address, and the client connects to the first. -/
theorem connects_to_earlier_host :
    ∃ c c', run (step .tcp Utf8Decoding.qtDecoder JsonText.jsonCodec ClientHandShaker.qtReader)
        (start oneServer "me".toList 0) asksAgain = some c ∧
      step .tcp Utf8Decoding.qtDecoder JsonText.jsonCodec ClientHandShaker.qtReader c ipv6Only =
        some c' ∧
      c'.model.serverAddress = ⟨.ipv4, "127.0.0.1".toList⟩ ∧ ¬ ConnectsToIts c ipv6Only c' := by
  have hlast : ((run (step .tcp Utf8Decoding.qtDecoder JsonText.jsonCodec
      ClientHandShaker.qtReader) (start oneServer "me".toList 0) asksAgain).bind fun c =>
        (step .tcp Utf8Decoding.qtDecoder JsonText.jsonCodec ClientHandShaker.qtReader c
          ipv6Only).map (·.model.serverAddress)) = some ⟨.ipv4, "127.0.0.1".toList⟩ := by
    decide
  obtain ⟨c, hrun, hrest⟩ := Option.bind_eq_some_iff.mp hlast
  obtain ⟨c', hs, haddress⟩ := Option.map_eq_some_iff.mp hrest
  refine ⟨c, c', hrun, hs, haddress, fun hits => ?_⟩
  have hmem : c'.model.serverAddress ∈ [(⟨.ipv6, "::1".toList⟩ : HostAddress)] := hits
  rw [haddress] at hmem
  cases List.mem_singleton.mp hmem

end SecureChat.ClientAddress
