import CapyOS.Net.Socket
import CapyOS.Proofs.SocketTcp

namespace CapyOS.Proofs
open Lib TcpTable SocketTable Function List
variable {fd' : SocketFd} {k : Socket} {tcp' : TcpTable} {i : ConnSlot}

def Connecting (call : Option SocketCall) : Prop := ∃ w, call = some (.connect w)

def Uses (k : Socket) (call : Option SocketCall) : Prop :=
  k.type = sockStream ∧ k.state ≠ .unused ∧ (k.protocolData ≠ 0 ∨ k.state = .connected ∨ Connecting call)

structure Attached (tcp : TcpTable) (k : Socket) : Prop where
  active : (tcp.conns k.protocolData).active = true
  opened : (tcp.conns k.protocolData).serial ∈ k.opened
  open' : OpenState (tcp.conns k.protocolData).state
  done : k.state = .connected → (tcp.conns k.protocolData).state ≠ .synSent

def CallFits (k : Socket) : Option SocketCall → Prop
  | none => True
  | some (.connect _) => k.type = sockStream ∧ k.state = .connecting
  | some _ => k.type = sockStream ∧ k.state = .connected

structure SocketInv (s : SocketTable) : Prop where
  sound : TcpSound s.tcp
  waiting : ∀ fd, CallFits (s.sockets fd) (s.calls fd)
  attached : ∀ fd, Uses (s.sockets fd) (s.calls fd) → Attached s.tcp (s.sockets fd)
  recorded : ∀ fd, ∀ x ∈ (s.sockets fd).opened, x < s.tcp.opened
  once : ∀ fd fd' x, x ∈ (s.sockets fd).opened → x ∈ (s.sockets fd').opened → fd = fd'

section
variable {s t : SocketTable} {env : SocketEnv} {fd : SocketFd} {tcp : TcpTable} {k : Socket}

theorem Attached.kept (h : Attached tcp k) (hk : ConnsKept tcp tcp') : Attached tcp' k := by
  obtain ⟨ha, ho, hs⟩ := hk.open' _ h.active h.open'
  exact ⟨ha, by rw [hk.serial]; exact h.opened, ho, fun hd => hs (h.done hd)⟩

theorem SocketInv.apart (h : SocketInv s) (hfd : Uses (s.sockets fd) (s.calls fd))
    (hfd' : Uses (s.sockets fd') (s.calls fd')) (he : (s.sockets fd).protocolData = (s.sockets fd').protocolData) :
    fd = fd' := by
  have h1 := (h.attached fd hfd).opened
  have h2 := (h.attached fd' hfd').opened
  rw [← he] at h2
  exact h.once fd fd' _ h1 h2

theorem SocketInv.step (h : SocketInv s) (fd : SocketFd) (hsound : TcpSound t.tcp) (hopened : s.tcp.opened ≤ t.tcp.opened)
    (hother : ∀ fd', fd' ≠ fd → t.sockets fd' = s.sockets fd' ∧ t.calls fd' = s.calls fd')
    (hkeep : ∀ fd', fd' ≠ fd → Uses (s.sockets fd') (s.calls fd') → Attached t.tcp (s.sockets fd'))
    (hcall : CallFits (t.sockets fd) (t.calls fd)) (hattach : Uses (t.sockets fd) (t.calls fd) → Attached t.tcp (t.sockets fd))
    (hnew : ∀ x ∈ (t.sockets fd).opened, x ∈ (s.sockets fd).opened ∨ x = s.tcp.opened ∧ x < t.tcp.opened) : SocketInv t := by
  have hrec (x : Nat) (hx : x ∈ (t.sockets fd).opened) (fd' : SocketFd) (hfd : fd' ≠ fd) :
      x ∉ (s.sockets fd').opened := by
    intro hx'
    rcases hnew x hx with hold | ⟨hlast, -⟩
    · exact hfd (h.once fd' fd x hx' hold)
    · exact absurd (h.recorded fd' x hx') (by omega)
  refine ⟨hsound, fun fd' => ?_, fun fd' hu => ?_, fun fd' x hx => ?_, fun fd₁ fd₂ x h₁ h₂ => ?_⟩
  · by_cases hfd : fd' = fd
    · rwa [hfd]
    · rw [(hother fd' hfd).1, (hother fd' hfd).2]
      exact h.waiting fd'
  · by_cases hfd : fd' = fd
    · rw [hfd] at hu ⊢
      exact hattach hu
    · rw [(hother fd' hfd).1, (hother fd' hfd).2] at hu
      rw [(hother fd' hfd).1]
      exact hkeep fd' hfd hu
  · by_cases hfd : fd' = fd
    · rw [hfd] at hx
      rcases hnew x hx with hold | ⟨-, hlt⟩
      · exact Nat.lt_of_lt_of_le (h.recorded fd x hold) hopened
      · exact hlt
    · rw [(hother fd' hfd).1] at hx
      exact Nat.lt_of_lt_of_le (h.recorded fd' x hx) hopened
  · by_cases h1 : fd₁ = fd
    · by_cases h2 : fd₂ = fd
      · rw [h1, h2]
      · rw [h1] at h₁
        rw [(hother fd₂ h2).1] at h₂
        exact absurd h₂ (hrec x h₁ fd₂ h2)
    · rw [(hother fd₁ h1).1] at h₁
      by_cases h2 : fd₂ = fd
      · rw [h2] at h₂
        exact absurd h₁ (hrec x h₂ fd₁ h1)
      · rw [(hother fd₂ h2).1] at h₂
        exact h.once fd₁ fd₂ x h₁ h₂

theorem SocketInv.kept (h : SocketInv s) (fd : SocketFd) (hk : ConnsKept s.tcp t.tcp)
    (hother : ∀ fd', fd' ≠ fd → t.sockets fd' = s.sockets fd' ∧ t.calls fd' = s.calls fd')
    (hcall : CallFits (t.sockets fd) (t.calls fd)) (hattach : Uses (t.sockets fd) (t.calls fd) → Attached t.tcp (t.sockets fd))
    (hnew : ∀ x ∈ (t.sockets fd).opened, x ∈ (s.sockets fd).opened) : SocketInv t :=
  h.step fd (h.sound.kept hk) (Nat.le_of_eq hk.opened.symm) hother (fun fd' _ hu => (h.attached fd' hu).kept hk) hcall
    hattach (fun x hx => .inl (hnew x hx))

theorem SocketInv.network (h : SocketInv s) (hk : ConnsKept s.tcp tcp) : SocketInv { s with tcp := tcp } :=
  h.kept 0 hk (fun _ _ => ⟨rfl, rfl⟩) (h.waiting 0) (fun hu => (h.attached 0 hu).kept hk) (fun _ hx => hx)

@[simp] theorem setSocket_self (k : Socket) : (s.setSocket fd k).sockets fd = k := update_self ..

theorem setSocket_other (k : Socket) (h : fd' ≠ fd) : (s.setSocket fd k).sockets fd' = s.sockets fd' :=
  update_of_ne h ..

@[simp] theorem setSocket_calls (k : Socket) : (s.setSocket fd k).calls = s.calls := rfl

@[simp] theorem setSocket_tcp (k : Socket) : (s.setSocket fd k).tcp = s.tcp := rfl

@[simp] theorem setCall_self (call : Option SocketCall) : (s.setCall fd call).calls fd = call := update_self ..

theorem setCall_other (call : Option SocketCall) (h : fd' ≠ fd) :
    (s.setCall fd call).calls fd' = s.calls fd' := update_of_ne h ..

@[simp] theorem setCall_sockets (call : Option SocketCall) : (s.setCall fd call).sockets = s.sockets := rfl

@[simp] theorem setCall_tcp (call : Option SocketCall) : (s.setCall fd call).tcp = s.tcp := rfl

/-- A socket changed in fields that say nothing of its connection. -/
theorem SocketInv.setSocket (h : SocketInv s) (ht : k.type = (s.sockets fd).type)
    (hs : k.state = (s.sockets fd).state) (hp : k.protocolData = (s.sockets fd).protocolData)
    (ho : k.opened = (s.sockets fd).opened) : SocketInv (s.setSocket fd k) := by
  refine h.kept fd (.refl _) (fun fd' hfd => ⟨setSocket_other _ hfd, rfl⟩) ?_ (fun hu => ?_) (fun x hx => ?_)
  · have hw := h.waiting fd
    rw [setSocket_self, setSocket_calls]
    unfold CallFits at hw ⊢
    rwa [ht, hs]
  · rw [setSocket_self] at hu ⊢
    have ha : Attached s.tcp (s.sockets fd) := by
      apply h.attached fd
      unfold Uses at hu ⊢
      rwa [← ht, ← hs, ← hp]
    exact ⟨by rw [hp]; exact ha.active, by rw [hp, ho]; exact ha.opened, by rw [hp]; exact ha.open',
      by rw [hp, hs]; exact ha.done⟩
  · rw [setSocket_self, ho] at hx
    exact hx

theorem SocketInv.setCall (h : SocketInv s) {call : Option SocketCall} (hcall : CallFits (s.sockets fd) call)
    (hcon : Connecting call → Connecting (s.calls fd)) : SocketInv (s.setCall fd call) := by
  refine h.kept fd (.refl _) (fun fd' hfd => ⟨rfl, setCall_other _ hfd⟩) ?_ (fun hu => ?_) (fun x hx => hx)
  · rw [setCall_self]
    exact hcall
  · rw [setCall_self] at hu
    exact h.attached fd ⟨hu.1, hu.2.1, hu.2.2.imp_right (Or.imp_right hcon)⟩

theorem SocketInv.create (h : SocketInv s) (type : BitVec 16) : SocketInv (s.socketCreate type).2 := by
  unfold socketCreate
  split
  · exact h
  rename_i fd hfind
  have hunused : (s.sockets fd).state = .unused := by simpa using List.find?_some hfind
  -- an unused socket has no call
  have hcall : s.calls fd = none := by
    have hw := h.waiting fd
    unfold CallFits at hw
    split at hw
    · assumption
    · rw [hunused] at hw
      exact nomatch hw.2
    · rw [hunused] at hw
      exact nomatch hw.2
  refine h.kept fd (.refl _) (fun fd' hfd => ⟨setSocket_other _ hfd, rfl⟩) ?_ (fun hu => ?_) (fun x hx => ?_)
  · rw [setSocket_calls, hcall]
    trivial
  · rw [setSocket_self, setSocket_calls, hcall] at hu
    obtain ⟨-, -, hp | hs | ⟨w, hw⟩⟩ := hu
    · exact absurd rfl hp
    · cases hs
    · cases hw
  · rw [setSocket_self] at hx
    cases hx

/-- A call to connect that fails before a connection is opened. -/
theorem SocketInv.connectFailed (h : SocketInv s) (hcall : s.calls fd = none) (hk : (s.sockets fd).state ≠ .unused)
    (ht : k.type = (s.sockets fd).type) (hs : k.state = .error)
    (hp : k.protocolData = (s.sockets fd).protocolData) (ho : k.opened = (s.sockets fd).opened) :
    SocketInv (s.setSocket fd k) := by
  refine h.kept fd (.refl _) (fun fd' hfd => ⟨setSocket_other _ hfd, rfl⟩) ?_ (fun hu => ?_) (fun x hx => ?_)
  · rw [setSocket_calls, hcall]
    trivial
  · rw [setSocket_self, setSocket_calls, hcall] at hu
    rw [setSocket_self]
    obtain ⟨htype, -, hpd | hst | ⟨w, hw⟩⟩ := hu
    · have ha := h.attached fd ⟨ht ▸ htype, hk, .inl (hp ▸ hpd)⟩
      exact ⟨by rw [hp]; exact ha.active, by rw [hp, ho]; exact ha.opened, by rw [hp]; exact ha.open',
        fun hd => by rw [hs] at hd; cases hd⟩
    · rw [hs] at hst
      cases hst
    · cases hw
  · rw [setSocket_self, ho] at hx
    exact hx

theorem Attached.opens (h : Attached tcp k) (ho : OpenedAt tcp tcp' i) : Attached tcp' k := by
  have hne : k.protocolData ≠ i := by
    intro he
    have hfree := ho.free
    rw [← he, h.active] at hfree
    cases hfree
  obtain ⟨ha, hs, hop, hd⟩ := h
  rw [← ho.other _ hne] at ha hs hop hd
  exact ⟨ha, hs, hop, hd⟩

theorem SocketInv.connectOpened (h : SocketInv s) {tcp : TcpTable} (ho : OpenedAt s.tcp tcp i)
    (hsound : TcpSound tcp) {w : TcpWait} (ht : k.type = sockStream) (hs : k.state = .connecting)
    (hp : k.protocolData = i) (hop : k.opened = (s.sockets fd).opened ++ [(tcp.conns i).serial]) :
    SocketInv (({ s with tcp := tcp }.setSocket fd k).setCall fd (some (.connect w))) := by
  refine h.step fd hsound (by rw [setCall_tcp, setSocket_tcp, ho.opened]; exact Nat.le_succ _)
    (fun fd' hfd => ⟨setSocket_other _ hfd, setCall_other _ hfd⟩) (fun fd' _ hu => (h.attached fd' hu).opens ho) ?_
    (fun _ => ?_) (fun x hx => ?_)
  · rw [setCall_self, setCall_sockets, setSocket_self]
    exact ⟨ht, hs⟩
  · rw [setCall_tcp, setCall_sockets, setSocket_self, setSocket_tcp]
    refine ⟨by rw [hp]; exact ho.active, ?_, by rw [hp]; exact .inl ho.state, fun hd => by rw [hs] at hd; cases hd⟩
    rw [hp, hop]
    exact mem_append_right _ (mem_singleton.mpr rfl)
  · rw [setCall_sockets, setSocket_self, hop] at hx
    rcases mem_append.mp hx with hx | hx
    · exact .inl hx
    · right
      rw [mem_singleton.mp hx, ho.serial]
      exact ⟨rfl, by rw [setCall_tcp, setSocket_tcp, ho.opened]; exact Nat.lt_succ_self _⟩

theorem SocketInv.port (h : SocketInv s) (p : Port) : SocketInv { s with nextEphemeralPort := p } :=
  { h with }

/-- The port that a call of `socket_connect` uses, and the table with the next one noted. -/
theorem local_port (s : SocketTable) (env : SocketEnv) (fd : SocketFd) :
    ∃ p n, (if (s.sockets fd).localPort = 0 then s.socketAllocateEphemeralPort env
      else ((s.sockets fd).localPort, s)) = (p, { s with nextEphemeralPort := n }) := by
  split
  · exact ⟨_, _, rfl⟩
  · exact ⟨_, s.nextEphemeralPort, rfl⟩

theorem SocketInv.connect (h : SocketInv s) (hcall : s.calls fd = none) (addr : Ipv4Addr) (port : Port) :
    SocketInv (s.socketConnect env fd addr port).2 := by
  unfold socketConnect
  simp only
  split
  · exact h
  rename_i hk
  split
  · rename_i htype
    refine h.kept fd (.refl _) (fun fd' hfd => ⟨setSocket_other _ hfd, rfl⟩) ?_ (fun hu => ?_) (fun x hx => ?_)
    · rw [setSocket_calls, hcall]
      trivial
    · rw [setSocket_self] at hu
      have hs : (s.sockets fd).type = sockStream := hu.1
      rw [htype] at hs
      exact absurd hs (by decide)
    · rw [setSocket_self] at hx
      exact hx
  split
  · rename_i htype
    obtain ⟨p, n, hp⟩ := local_port s env fd
    simp only [hp]
    have hs : SocketInv { s with nextEphemeralPort := n } := h.port n
    split
    · exact hs.connectFailed hcall hk (by split <;> rfl) rfl (by split <;> rfl) (by split <;> rfl)
    · split
      · exact hs.connectFailed hcall hk (by split <;> rfl) rfl (by split <;> rfl) (by split <;> rfl)
      · rename_i conn tcp he
        obtain ⟨hnone, -⟩ | ⟨i, hi, ho, hsound⟩ := open_sound h.sound _ _ _ _ _ he
        · cases hnone
        · cases hi
          refine hs.connectOpened ho hsound ?_ ?_ rfl ?_
          · split <;> exact htype
          · split <;> rfl
          · split <;> rfl
  · rename_i htype
    refine h.kept fd (.refl _) (fun fd' hfd => ⟨setSocket_other _ hfd, rfl⟩) ?_ (fun hu => ?_) (fun x hx => ?_)
    · rw [setSocket_calls, hcall]
      trivial
    · rw [setSocket_self] at hu
      exact absurd hu.1 htype
    · rw [setSocket_self] at hx
      exact hx

theorem SocketInv.closed (h : SocketInv s) (hu : Uses (s.sockets fd) (s.calls fd)) {k : Socket}
    (hk : ¬Uses k none) (ho : k.opened = (s.sockets fd).opened) :
    SocketInv (({ s with tcp := (s.tcp.tcpClose env.tcp (s.sockets fd).protocolData).2 }.setCall fd none).setSocket fd k) := by
  have hopened : (s.tcp.tcpClose env.tcp (s.sockets fd).protocolData).2.opened = s.tcp.opened := by
    obtain ⟨-, he⟩ | ⟨-, c, t, he, -, -, -, -, -, -, -, -, -, ho, -⟩ :=
      tcpClose_cases s.tcp env.tcp (s.sockets fd).protocolData
    · rw [he]
    · rw [he]
      exact ho
  refine h.step fd (close_sound h.sound) (Nat.le_of_eq hopened.symm)
    (fun fd' hfd => ⟨setSocket_other _ hfd, setCall_other _ hfd⟩) (fun fd' hfd hu' => ?_) ?_ (fun hu' => ?_)
    (fun x hx => .inl ?_)
  · have hne : (s.sockets fd').protocolData ≠ (s.sockets fd).protocolData := fun he => hfd (h.apart hu' hu he)
    have hsame := @close_other s.tcp env.tcp _ _ hne
    obtain ⟨ha, hs, hop, hd⟩ := h.attached fd' hu'
    rw [← hsame] at ha hs hop hd
    exact ⟨ha, hs, hop, hd⟩
  · rw [setSocket_calls, setCall_self]
    trivial
  · rw [setSocket_self, setSocket_calls, setCall_self] at hu'
    exact absurd hu' hk
  · rw [setSocket_self, ho] at hx
    exact hx

theorem setCall_none (h : s.calls fd = none) : s.setCall fd none = s := by
  unfold SocketTable.setCall
  rw [← h, update_eq_self]

theorem SocketInv.close (h : SocketInv s) (hcall : s.calls fd = none) : SocketInv (s.socketClose env fd).2 := by
  unfold socketClose
  simp only
  split
  · exact h
  rename_i hk
  have hunused {k : Socket} (hs : k.state = .unused) : ¬Uses k none := fun hu => hu.2.1 hs
  split
  · rename_i hc
    have hclosed := @SocketInv.closed s env fd h ⟨hc.1, hk, .inl hc.2⟩ { s.sockets fd with state := .unused }
      (hunused rfl) rfl
    rwa [@setCall_none { s with tcp := (s.tcp.tcpClose env.tcp (s.sockets fd).protocolData).2 } fd hcall] at hclosed
  · refine h.kept fd (.refl _) (fun fd' hfd => ⟨setSocket_other _ hfd, rfl⟩) ?_ (fun hu => ?_) (fun x hx => ?_)
    · rw [setSocket_calls]
      simp only [hcall]
      trivial
    · rw [setSocket_self, setSocket_calls] at hu
      exact absurd rfl hu.2.1
    · rw [setSocket_self] at hx
      exact hx

theorem waitTurn_cases (conn : ConnSlot) (target : TcpState) (timeoutMs : BitVec 32) (w : TcpWait) :
    (∃ r, waitTurn env tcp conn target timeoutMs w = (.inl r, tcp) ∧ (r = 0 → (tcp.conns conn).state = target)) ∨
      ∃ w' tcp', waitTurn env tcp conn target timeoutMs w = (.inr w', tcp') ∧ Resent conn tcp tcp' := by
  unfold waitTurn tcpConnectionState
  simp only
  split
  · exact .inl ⟨_, rfl, fun h => nomatch h⟩
  split
  · rename_i hst
    exact .inl ⟨_, rfl, fun _ => hst⟩
  split
  · exact .inl ⟨_, rfl, fun h => nomatch h⟩
  split
  · exact .inr ⟨_, _, rfl, resent_retransmit⟩
  · exact .inr ⟨_, _, rfl, .refl ..⟩

/-- A turn of the loop of `socket_recv` either reads or leaves the table as it is, and it
returns 0 only from a state that it takes for the end, or when it is asked for no bytes. -/
theorem recvTurn_cases (conn : ConnSlot) (timeoutMs elapsed : BitVec 32) (len : Nat) :
    ((recvTurn env tcp conn timeoutMs elapsed len).2 = tcp ∨
      (recvTurn env tcp conn timeoutMs elapsed len).2 = (tcp.tcpRecv env.tcp conn len).2) ∧
    ∀ bytes, (recvTurn env tcp conn timeoutMs elapsed len).1 = .inl (0, bytes) → len ≠ 0 →
      (recvTurn env tcp conn timeoutMs elapsed len).2 = tcp ∧ streamEnded (tcp.conns conn).state ∧
        (tcp.tcpAvailable conn = 0) := by
  unfold recvTurn tcpConnectionState
  split
  · exact ⟨.inl rfl, fun _ h => nomatch h⟩
  split
  · rename_i hempty
    split
    · rename_i hend
      exact ⟨.inl rfl, fun _ _ _ => ⟨rfl, hend, hempty⟩⟩
    · exact ⟨.inl rfl, fun _ h => nomatch h⟩
  rename_i havail
  have hread : (tcp.conns conn).active = true ∧ (tcp.conns conn).recvLen ≠ 0 ∧ (tcp.conns conn).recvBuf ≠ none := by
    unfold tcpAvailable at havail
    simp only at havail
    split at havail
    · exact absurd rfl havail
    · rename_i hn
      rw [not_or] at hn
      exact ⟨by simpa using hn.1, havail, by simpa using hn.2⟩
  obtain ⟨r, -, hr⟩ | ⟨-, -, -, avail, ha, c, -, he⟩ := tcpRecv_cases tcp env.tcp conn len
  · rcases hr with hr | hr | hr
    · rw [hread.1] at hr
      cases hr
    · exact absurd hr hread.2.1
    · exact absurd hr hread.2.2
  · simp only [he]
    rw [if_pos (Int.natCast_nonneg _)]
    refine ⟨.inr rfl, fun bytes h hz => ?_⟩
    simp only [Sum.inl.injEq, Prod.mk.injEq] at h
    omega

theorem recvTurn_kept (conn : ConnSlot) (timeoutMs elapsed : BitVec 32) (len : Nat) :
    ConnsKept tcp (recvTurn env tcp conn timeoutMs elapsed len).2 := by
  obtain ⟨he | he, -⟩ := @recvTurn_cases env tcp conn timeoutMs elapsed len
  · rw [he]
    exact .refl _
  · rw [he]
    exact recv_connsKept len

theorem SocketInv.turn (h : SocketInv s) : SocketInv (s.socketTurn env fd).2 := by
  have hw := h.waiting fd
  have hended : SocketInv (s.setCall fd none) := h.setCall trivial fun hc => nomatch hc.choose_spec
  unfold socketTurn
  simp only
  split
  · exact h
  · rename_i w hcall
    rw [hcall] at hw
    have hu : Uses (s.sockets fd) (s.calls fd) := by
      rw [hcall]
      exact ⟨hw.1, by rw [hw.2]; exact (nomatch ·), .inr (.inr ⟨w, rfl⟩)⟩
    obtain ⟨r, he, hr⟩ | ⟨w', tcp', he, hres⟩ := @waitTurn_cases env s.tcp (s.sockets fd).protocolData .established
      (s.sockets fd).timeoutMs w
    · simp only [he]
      split
      · refine h.closed hu (fun hu' => ?_) rfl
        obtain ⟨-, -, hp | hs | ⟨w, hw⟩⟩ := hu'
        · exact absurd rfl hp
        · cases hs
        · cases hw
      · rename_i hz
        have hest := hr (not_not.mp hz)
        refine hended.kept fd (.refl _) (fun fd' hfd => ⟨setSocket_other _ hfd, rfl⟩) ?_ (fun _ => ?_) (fun x hx => ?_)
        · rw [setSocket_calls, setCall_self]
          trivial
        · rw [setSocket_self]
          have ha := h.attached fd hu
          exact { ha with done := fun _ => by simp [hest] }
        · rw [setSocket_self] at hx
          exact hx
    · simp only [he]
      refine (h.network hres.connsKept).setCall hw fun _ => ?_
      exact ⟨w, hcall⟩
  · rename_i w data hcall
    rw [hcall] at hw
    obtain ⟨r, he, -⟩ | ⟨w', tcp', he, hres⟩ := @waitTurn_cases env s.tcp (s.sockets fd).protocolData .established
      (s.sockets fd).timeoutMs w
    · simp only [he]
      split
      · exact hended.setSocket rfl rfl rfl rfl
      · exact hended.network (resent_send _).connsKept
    · simp only [he]
      exact (h.network hres.connsKept).setCall hw fun hc => nomatch hc.choose_spec
  · rename_i elapsed len hcall
    rw [hcall] at hw
    have hk := @recvTurn_kept env s.tcp (s.sockets fd).protocolData (s.sockets fd).timeoutMs elapsed len
    split
    · rename_i e tcp' he
      rw [he] at hk
      exact (h.network hk).setCall hw fun hc => nomatch hc.choose_spec
    · rename_i r tcp' he
      rw [he] at hk
      have hend : SocketInv ({ s with tcp := tcp' }.setCall fd none) := hended.network hk
      simp only
      split
      · exact hend.setSocket rfl rfl rfl rfl
      · exact hend

end

def Unreset (s : SocketTable) : SocketOp → Prop
  | .segment srcIp dstIp bytes => ¬ResetsOpen s.tcp srcIp dstIp bytes
  | _ => True

section
variable {s t : SocketTable} {env : SocketEnv} {fd : SocketFd}

theorem init_socketInv : SocketInv .socketSystemInit := by
  have hidle (i : ConnSlot) : ¬(TcpTable.tcpInit.conns i).active = true := (nomatch ·)
  refine ⟨⟨⟨fun b => ?_, fun i h => absurd h (hidle i), fun i h => absurd h (hidle i)⟩, fun i h => absurd h (hidle i),
    fun i h => absurd h (hidle i), fun i _ h => absurd h (hidle i)⟩, fun _ => trivial, fun fd hu => absurd rfl hu.2.1,
    fun _ _ h => absurd h not_mem_nil, fun _ _ _ h => absurd h not_mem_nil⟩
  simp [socketSystemInit, tcpInit, heldBy, TcpConnection.zero]

/-- What holds of the table and of the result of an operation on an idle socket holds after
the operation. -/
theorem idle_step (P : SocketTable → Prop) {r : SocketTable} (h : P s) (hr : s.calls fd = none → P r) :
    P (if (s.calls fd).isSome then s else r) := by
  cases hcall : s.calls fd with
  | none => exact hr hcall
  | some call => exact h

theorem SocketInv.send (h : SocketInv s) (data : List Byte) : SocketInv (s.socketSend env fd data).2 := by
  unfold socketSend
  simp only
  split
  · exact h
  rename_i hst
  split
  · rename_i ht
    exact h.setCall ⟨ht, not_not.mp hst⟩ fun hc => nomatch hc.choose_spec
  split
  · exact h.network ⟨rfl, fun _ => rfl, fun _ h => h, fun _ ha ho => ⟨ha, ho, id⟩, fun _ _ h => h,
      fun h => ⟨h.counted, h.known, h.emptied⟩, id⟩
  · exact h

theorem SocketInv.recv (h : SocketInv s) (len : Nat) : SocketInv (s.socketRecv fd len).2 := by
  unfold socketRecv
  simp only
  split
  · exact h
  rename_i hst
  split
  · rename_i ht
    exact h.setCall ⟨ht, not_not.mp hst⟩ fun hc => nomatch hc.choose_spec
  split <;> exact h

theorem step_socketInv (h : SocketInv s) (op : SocketOp) (hop : Unreset s op) : SocketInv (socketStep env s op) := by
  cases op with
  | create type => exact h.create type
  | connect fd addr port =>
    exact idle_step SocketInv h fun hcall => h.connect hcall addr port
  | send fd data =>
    exact idle_step SocketInv h fun _ => h.send data
  | recv fd len =>
    exact idle_step SocketInv h fun _ => h.recv len
  | close fd =>
    exact idle_step SocketInv h fun hcall => h.close hcall
  | turn fd => exact h.turn
  | segment srcIp dstIp bytes => exact h.network (segment_connsKept h.sound.heap srcIp dstIp bytes hop)
  | timerTick => exact h.network timerTick_connsKept
  | setTimeout fd ms =>
    unfold socketStep SocketTable.setTimeout
    simp only
    split
    · exact h
    · exact h.setSocket rfl rfl rfl rfl

theorem socketRun_inv (h : SocketRun env Unreset s) : SocketInv s := by
  induction h with
  | init => exact init_socketInv
  | step op hp _ ih => exact step_socketInv ih op hp

def NoRst : SocketOp → Prop
  | .segment _ _ bytes => (TcpHeader.read bytes).flags.rst = false
  | _ => True

theorem unreset_noRst {op : SocketOp} (h : NoRst op) (s : SocketTable) : Unreset s op := by
  cases op with
  | segment srcIp dstIp bytes =>
    rintro ⟨i, -, hr, -⟩
    rw [show (TcpHeader.read bytes).flags.rst = false from h] at hr
    cases hr
  | _ => trivial

theorem socketRun_foldl {P : SocketTable → SocketOp → Prop} {ops : List SocketOp} (hP : ∀ op ∈ ops, ∀ s, P s op)
    (h : SocketRun env P s) : SocketRun env P (ops.foldl (socketStep env) s) := by
  induction ops generalizing s with
  | nil => exact h
  | cons op ops ih =>
    exact ih (fun op' hop => hP op' (mem_cons_of_mem _ hop)) (.step op (hP op mem_cons_self s) h)

end

instance : DecidablePred NoRst := fun op => by
  cases op <;> unfold NoRst <;> infer_instance

def plainSocketEnv : SocketEnv := ⟨plainEnv, 2, fun _ => 0⟩

def peerSegment (flags seq ack hi lo : Byte) (payload : List Byte) : SocketOp :=
  .segment 1 2 ([0, 80, 192, 0, 0, 0, 0, seq, 0, 0, 0, ack, 0x50, flags, 0, 0, hi, lo, 0, 0] ++ payload)

def connectOne : List SocketOp :=
  [.create 1, .connect 0 0x01000000 0x5000, peerSegment 0x12 5 8 239 114 [], .turn 0]

def socketsAfter (ops : List SocketOp) : SocketTable := ops.foldl (socketStep plainSocketEnv) .socketSystemInit

end CapyOS.Proofs
