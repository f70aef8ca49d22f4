import CapyOS.Proofs.Sockets

namespace CapyOS.Proofs
open Lib TcpTable SocketTable List

def ConnectedStream (k : Socket) : Prop := k.type = sockStream ∧ k.state = .connected

instance (k : Socket) : Decidable (ConnectedStream k) := inferInstanceAs (Decidable (_ ∧ _))

/-- No RST ends a connection in use, a connected stream socket is not connected again, and
one whose connection has index 0 is not closed. -/
def OwnerSafe (s : SocketTable) : SocketOp → Prop
  | .segment srcIp dstIp bytes => ¬ResetsOpen s.tcp srcIp dstIp bytes
  | .connect fd _ _ => ¬ConnectedStream (s.sockets fd)
  | .close fd => ¬(ConnectedStream (s.sockets fd) ∧ (s.sockets fd).protocolData = 0)
  | _ => True

/-- Connections that the socket did not open are left as they are, and nothing is sent on them. -/
def LeavesOthers (own : List Nat) (s t : TcpTable) : Prop :=
  (∀ j, (s.conns j).active = true → (s.conns j).serial ∉ own → t.conns j = s.conns j) ∧
    ∃ l, t.sent = s.sent ++ l ∧ ∀ p ∈ l, (s.conns p.1).active = true → (s.conns p.1).serial ∈ own

/-- A socket's open connections are the one its index names, and it has one only while it is
connected or connecting. -/
structure OneLink (s : SocketTable) : Prop where
  linked : ∀ fd i, (s.tcp.conns i).active = true → OpenState (s.tcp.conns i).state →
    (s.tcp.conns i).serial ∈ (s.sockets fd).opened → (s.sockets fd).state ≠ .unused →
    Uses (s.sockets fd) (s.calls fd) ∧ (s.sockets fd).protocolData = i
  busy : ∀ fd, (s.sockets fd).type = sockStream → (s.sockets fd).state ≠ .unused → (s.sockets fd).protocolData ≠ 0 →
    (s.sockets fd).state = .connected ∨ Connecting (s.calls fd)

section
variable {s t : SocketTable} {env : SocketEnv} {fd : SocketFd} {own : List Nat} {tcp tcp' : TcpTable} {i : ConnSlot}

theorem LeavesOthers.refl (own : List Nat) (s : TcpTable) : LeavesOthers own s s :=
  ⟨fun _ _ _ => rfl, [], (append_nil _).symm, fun _ h => absurd h not_mem_nil⟩

/-- What is done at one place, which is free or the socket's own. -/
theorem LeavesOthers.touch (hi : (tcp.conns i).active = true → (tcp.conns i).serial ∈ own)
    (hother : ∀ j, j ≠ i → tcp'.conns j = tcp.conns j) (hsent : SentOn i tcp tcp') : LeavesOthers own tcp tcp' := by
  obtain ⟨l, hl, hon⟩ := hsent
  refine ⟨fun j hj hown => ?_, l, hl, fun p hp ha => ?_⟩
  · by_cases hji : j = i
    · rw [hji] at hj hown
      exact absurd (hi hj) hown
    · exact hother j hji
  · rw [hon p hp] at ha ⊢
    exact hi ha

theorem Resent.leaves (h : Resent i tcp tcp') (hi : (tcp.conns i).serial ∈ own) : LeavesOthers own tcp tcp' :=
  .touch (fun _ => hi) (fun _ hj => h.other hj) h.sent

theorem connect_leaves (addr : Ipv4Addr) (port : Port) (own : List Nat) (h : SocketInv s) :
    LeavesOthers own s.tcp (s.socketConnect env fd addr port).2.tcp := by
  unfold socketConnect
  simp only
  split
  · exact .refl ..
  split
  · exact .refl ..
  split
  · obtain ⟨p, n, hp⟩ := local_port s env fd
    simp only [hp]
    split
    · exact .refl ..
    split
    · exact .refl ..
    · rename_i conn tcp he
      obtain ⟨hnone, -⟩ | ⟨i, hi, ho, -⟩ := open_sound h.sound _ _ _ _ _ he
      · cases hnone
      · refine .touch (fun ha => ?_) ho.other ho.sent
        rw [ho.free] at ha
        cases ha
  · exact .refl ..

theorem turn_leaves (h : SocketInv s) : LeavesOthers (s.sockets fd).opened s.tcp (s.socketTurn env fd).2.tcp := by
  have hw := h.waiting fd
  have hattached {call : SocketCall} (hcall : s.calls fd = some call) :
      (s.tcp.conns (s.sockets fd).protocolData).serial ∈ (s.sockets fd).opened := by
    refine (h.attached fd ?_).opened
    rw [hcall] at hw ⊢
    cases call with
    | connect w => exact ⟨hw.1, by rw [hw.2]; exact (nomatch ·), .inr (.inr ⟨w, rfl⟩)⟩
    | send w data => exact ⟨hw.1, by rw [hw.2]; exact (nomatch ·), .inr (.inl hw.2)⟩
    | recv e len => exact ⟨hw.1, by rw [hw.2]; exact (nomatch ·), .inr (.inl hw.2)⟩
  unfold socketTurn
  simp only
  split
  · exact .refl ..
  · rename_i w hcall
    have hown := hattached hcall
    obtain ⟨r, he, hr⟩ | ⟨w', tcp', he, hres⟩ := @waitTurn_cases env s.tcp (s.sockets fd).protocolData .established
      (s.sockets fd).timeoutMs w
    · simp only [he]
      split
      · exact .touch (fun _ => hown) (fun _ hj => close_other hj) sentOn_close
      · exact .refl ..
    · simp only [he]
      exact hres.leaves hown
  · rename_i w data hcall
    have hown := hattached hcall
    obtain ⟨r, he, -⟩ | ⟨w', tcp', he, hres⟩ := @waitTurn_cases env s.tcp (s.sockets fd).protocolData .established
      (s.sockets fd).timeoutMs w
    · simp only [he]
      split
      · exact .refl ..
      · exact (resent_send data).leaves hown
    · simp only [he]
      exact hres.leaves hown
  · rename_i elapsed len hcall
    have hown := hattached hcall
    obtain ⟨htcp, -⟩ := @recvTurn_cases env s.tcp (s.sockets fd).protocolData (s.sockets fd).timeoutMs elapsed len
    have hl : LeavesOthers (s.sockets fd).opened s.tcp
        (recvTurn env s.tcp (s.sockets fd).protocolData (s.sockets fd).timeoutMs elapsed len).2 := by
      rcases htcp with he | he
      · rw [he]
        exact .refl ..
      · rw [he]
        refine .touch (fun _ => hown) (fun j hj => recv_other len hj.symm) ?_
        exact recv_sentOn len
    split
    · rename_i e tcp' he
      rw [he] at hl
      exact hl
    · rename_i r tcp' he
      rw [he] at hl
      simp only
      split <;> exact hl

theorem close_leaves (h : SocketInv s) :
    LeavesOthers (s.sockets fd).opened s.tcp (s.socketClose env fd).2.tcp := by
  unfold socketClose
  simp only
  split
  · exact .refl ..
  rename_i hk
  split
  · rename_i hc
    have ha := h.attached fd ⟨hc.1, hk, .inl hc.2⟩
    exact .touch (fun _ => ha.opened) (fun _ hj => close_other hj) sentOn_close
  · exact .refl ..

theorem step_leaves (h : SocketInv s) (op : SocketOp) (hfd : op.socket = some fd) :
    LeavesOthers (s.sockets fd).opened s.tcp (socketStep env s op).tcp := by
  cases op with
  | create type => cases hfd
  | connect fd addr port =>
    cases hfd
    exact idle_step (fun t => LeavesOthers _ s.tcp t.tcp) (.refl ..) fun _ => connect_leaves addr port _ h
  | send fd data =>
    cases hfd
    refine idle_step (fun t => LeavesOthers _ s.tcp t.tcp) (.refl ..) fun _ => ?_
    unfold socketSend
    simp only
    split
    · exact .refl ..
    split
    · exact .refl ..
    split
    · exact ⟨fun _ _ _ => rfl, [], (append_nil _).symm, fun _ h => absurd h not_mem_nil⟩
    · exact .refl ..
  | recv fd len =>
    cases hfd
    refine idle_step (fun t => LeavesOthers _ s.tcp t.tcp) (.refl ..) fun _ => ?_
    unfold socketRecv
    simp only
    split
    · exact .refl ..
    split
    · exact .refl ..
    split <;> exact .refl ..
  | close fd =>
    cases hfd
    exact idle_step (fun t => LeavesOthers _ s.tcp t.tcp) (.refl ..) fun _ => close_leaves h
  | turn fd =>
    cases hfd
    exact turn_leaves h
  | segment srcIp dstIp bytes => cases hfd
  | timerTick => cases hfd
  | setTimeout fd ms => cases hfd

theorem OneLink.step (h : OneLink s) (fd : SocketFd)
    (hother : ∀ fd', fd' ≠ fd → t.sockets fd' = s.sockets fd' ∧ t.calls fd' = s.calls fd')
    (hback : ∀ i, (t.tcp.conns i).active = true → OpenState (t.tcp.conns i).state →
      ((s.tcp.conns i).active = true ∧ OpenState (s.tcp.conns i).state ∧ (t.tcp.conns i).serial = (s.tcp.conns i).serial) ∨
        ∀ fd', (t.tcp.conns i).serial ∉ (s.sockets fd').opened)
    (hself : ∀ i, (t.tcp.conns i).active = true → OpenState (t.tcp.conns i).state →
      (t.tcp.conns i).serial ∈ (t.sockets fd).opened → (t.sockets fd).state ≠ .unused →
      Uses (t.sockets fd) (t.calls fd) ∧ (t.sockets fd).protocolData = i)
    (hbusy : (t.sockets fd).type = sockStream → (t.sockets fd).state ≠ .unused → (t.sockets fd).protocolData ≠ 0 →
      (t.sockets fd).state = .connected ∨ Connecting (t.calls fd)) : OneLink t := by
  refine ⟨fun fd' i ha ho hs hu => ?_, fun fd' => ?_⟩
  · by_cases hfd : fd' = fd
    · rw [hfd] at hs hu ⊢
      exact hself i ha ho hs hu
    · rw [(hother fd' hfd).1] at hs hu ⊢
      rw [(hother fd' hfd).2]
      rcases hback i ha ho with ⟨ha', ho', he⟩ | hno
      · rw [he] at hs
        exact h.linked fd' i ha' ho' hs hu
      · exact absurd hs (hno fd')
  · by_cases hfd : fd' = fd
    · rw [hfd]
      exact hbusy
    · rw [(hother fd' hfd).1, (hother fd' hfd).2]
      exact h.busy fd'

theorem OneLink.kept (h : OneLink s) (fd : SocketFd) (hk : ConnsKept s.tcp t.tcp)
    (hother : ∀ fd', fd' ≠ fd → t.sockets fd' = s.sockets fd' ∧ t.calls fd' = s.calls fd')
    (hopened : ∀ x ∈ (t.sockets fd).opened, x ∈ (s.sockets fd).opened)
    (hused : (s.sockets fd).state = .unused → (t.sockets fd).opened ≠ [] → (t.sockets fd).state = .unused)
    (hself : Uses (s.sockets fd) (s.calls fd) → (t.sockets fd).state ≠ .unused →
      Uses (t.sockets fd) (t.calls fd) ∧ (t.sockets fd).protocolData = (s.sockets fd).protocolData)
    (hbusy : (t.sockets fd).type = sockStream → (t.sockets fd).state ≠ .unused → (t.sockets fd).protocolData ≠ 0 →
      (t.sockets fd).state = .connected ∨ Connecting (t.calls fd)) : OneLink t := by
  refine h.step fd hother (fun i ha ho => .inl ⟨hk.active i ha, hk.stays i ha ho, hk.serial i⟩) (fun i ha ho hs hu => ?_) hbusy
  have hmem := hopened _ hs
  rw [hk.serial] at hmem
  have hsu : (s.sockets fd).state ≠ .unused := fun hs' => hu (hused hs' (ne_nil_of_mem hs))
  obtain ⟨hl, hp⟩ := h.linked fd i (hk.active i ha) (hk.stays i ha ho) hmem hsu
  obtain ⟨hl', hp'⟩ := hself hl hu
  exact ⟨hl', hp'.trans hp⟩

theorem OneLink.network (h : OneLink s) (hk : ConnsKept s.tcp tcp) : OneLink { s with tcp := tcp } :=
  h.kept 0 hk (fun _ _ => ⟨rfl, rfl⟩) (fun _ hx => hx) (fun hs _ => hs) (fun hu _ => ⟨hu, rfl⟩) (h.busy 0)

theorem OneLink.setSocket (h : OneLink s) {k : Socket} (ht : k.type = (s.sockets fd).type)
    (hs : k.state = (s.sockets fd).state) (hp : k.protocolData = (s.sockets fd).protocolData)
    (ho : k.opened = (s.sockets fd).opened) : OneLink (s.setSocket fd k) := by
  refine h.kept fd (.refl _) (fun fd' hfd => ⟨setSocket_other _ hfd, rfl⟩) ?_ ?_ ?_ ?_
  · rw [setSocket_self, ho]
    exact fun _ hx => hx
  · rw [setSocket_self, hs]
    exact fun hu _ => hu
  · rw [setSocket_self, setSocket_calls]
    refine fun hu _ => ⟨?_, hp⟩
    unfold Uses at hu ⊢
    rwa [ht, hs, hp]
  · rw [setSocket_self, setSocket_calls, ht, hs, hp]
    exact h.busy fd

theorem OneLink.setCall (h : OneLink s) {call : Option SocketCall}
    (hs : (s.sockets fd).state = .connected ∨ (Connecting (s.calls fd) ↔ Connecting call)) : OneLink (s.setCall fd call) := by
  have hor : ((s.sockets fd).state = .connected ∨ Connecting (s.calls fd)) ↔
      ((s.sockets fd).state = .connected ∨ Connecting call) := by
    rcases hs with hs | hs
    · exact ⟨fun _ => .inl hs, fun _ => .inl hs⟩
    · rw [hs]
  refine h.kept fd (.refl _) (fun fd' hfd => ⟨rfl, setCall_other _ hfd⟩) (fun _ hx => hx) (fun hu _ => hu)
    (fun hu _ => ⟨?_, rfl⟩) ?_
  · rw [setCall_self]
    exact ⟨hu.1, hu.2.1, hu.2.2.imp_right hor.mp⟩
  · rw [setCall_self]
    exact fun ht hu hp => hor.mp (h.busy fd ht hu hp)

theorem OneLink.unlink (h : OneLink s) {k : Socket} (hback : ∀ i, (tcp.conns i).active = true →
      OpenState (tcp.conns i).state → (s.tcp.conns i).active = true ∧ OpenState (s.tcp.conns i).state ∧
        (tcp.conns i).serial = (s.tcp.conns i).serial)
    (hself : ∀ i, (tcp.conns i).active = true → OpenState (tcp.conns i).state → (tcp.conns i).serial ∈ k.opened →
      k.state = .unused) (hk : k.state = .unused ∨ k.protocolData = 0 ∨ k.type ≠ sockStream) :
    OneLink (({ s with tcp := tcp }.setCall fd none).setSocket fd k) := by
  refine h.step fd (fun fd' hfd => ⟨setSocket_other _ hfd, setCall_other _ hfd⟩) (fun i ha ho => .inl (hback i ha ho))
    (fun i ha ho hs hu => ?_) (fun ht hu hp => ?_)
  · rw [setSocket_self] at hs hu
    exact absurd (hself i ha ho hs) hu
  · rw [setSocket_self] at ht hu hp
    rcases hk with hk | hk | hk
    · exact absurd hk hu
    · exact absurd hk hp
    · exact absurd ht hk

theorem OneLink.none_open (h : OneLink s) (hu : (s.sockets fd).state ≠ .unused) (hn : ¬Uses (s.sockets fd) (s.calls fd))
    (i : ConnSlot) (ha : (s.tcp.conns i).active = true) (ho : OpenState (s.tcp.conns i).state) :
    (s.tcp.conns i).serial ∉ (s.sockets fd).opened :=
  fun hs => hn (h.linked fd i ha ho hs hu).1

theorem OneLink.idle (h : OneLink s) (hcall : s.calls fd = none) (hc : ¬ConnectedStream (s.sockets fd)) :
    ¬Uses (s.sockets fd) (s.calls fd) := by
  intro hu
  rw [hcall] at hu
  obtain ⟨ht, hk, hp | hs | ⟨w, hw⟩⟩ := hu
  · rcases h.busy fd ht hk hp with hs | ⟨w, hw⟩
    · exact hc ⟨ht, hs⟩
    · rw [hcall] at hw
      cases hw
  · exact hc ⟨ht, hs⟩
  · cases hw

theorem OneLink.create (h : OneLink s) (type : BitVec 16) : OneLink (s.socketCreate type).2 := by
  unfold socketCreate
  split
  · exact h
  rename_i fd hfind
  refine h.kept fd (.refl _) (fun fd' hfd => ⟨setSocket_other _ hfd, rfl⟩) ?_ ?_ ?_ ?_
  · rw [setSocket_self]
    exact fun _ hx => absurd hx not_mem_nil
  · rw [setSocket_self]
    exact fun _ hne => absurd rfl hne
  · intro hu
    have hunused : (s.sockets fd).state = .unused := by simpa using List.find?_some hfind
    exact absurd hunused hu.2.1
  · rw [setSocket_self]
    exact fun _ _ hp => absurd rfl hp

theorem OneLink.connectNone (h : OneLink s) (hcall : s.calls fd = none) (hu : (s.sockets fd).state ≠ .unused)
    (hc : ¬ConnectedStream (s.sockets fd)) {k : Socket} (ht : k.type = (s.sockets fd).type)
    (hp : k.protocolData = (s.sockets fd).protocolData) (ho : k.opened = (s.sockets fd).opened) :
    OneLink (s.setSocket fd k) := by
  have hn := h.idle hcall hc
  have hno := h.none_open hu hn
  have hun := @OneLink.unlink s fd s.tcp h k (fun i ha ho => ⟨ha, ho, rfl⟩)
    (fun i ha hop hs => absurd (ho ▸ hs) (hno i ha hop)) (by
      by_cases hst : (s.sockets fd).type = sockStream
      · refine .inr (.inl (hp.trans ?_))
        by_contra hpd
        exact hn ⟨hst, hu, .inl hpd⟩
      · exact .inr (.inr (ht ▸ hst)))
  rwa [@setCall_none s fd hcall] at hun

theorem OneLink.connect (h : OneLink s) (hinv : SocketInv s) (hcall : s.calls fd = none)
    (hc : ¬ConnectedStream (s.sockets fd)) (addr : Ipv4Addr) (port : Port) : OneLink (s.socketConnect env fd addr port).2 := by
  unfold socketConnect
  simp only
  split
  · exact h
  rename_i hk
  split
  · exact h.connectNone hcall hk hc rfl rfl rfl
  split
  · rename_i htype
    obtain ⟨p, n, hp⟩ := local_port s env fd
    simp only [hp]
    have hs : OneLink { s with nextEphemeralPort := n } := ⟨h.linked, h.busy⟩
    split
    · exact hs.connectNone hcall hk hc (by split <;> rfl) (by split <;> rfl) (by split <;> rfl)
    split
    · exact hs.connectNone hcall hk hc (by split <;> rfl) (by split <;> rfl) (by split <;> rfl)
    rename_i conn tcp he
    obtain ⟨hnone, -⟩ | ⟨i, hi, ho, -⟩ := open_sound hinv.sound _ _ _ _ _ he
    · cases hnone
    cases hi
    have hno := h.none_open hk (h.idle hcall hc)
    have hnew (fd' : SocketFd) : (tcp.conns conn).serial ∉ (s.sockets fd').opened := by
      intro hm
      rw [ho.serial] at hm
      exact absurd (hinv.recorded fd' _ hm) (Nat.lt_irrefl _)
    refine hs.step fd (fun fd' hfd => ⟨setSocket_other _ hfd, setCall_other _ hfd⟩) (fun i ha hop => ?_)
      (fun i ha hop hm hu => ?_) (fun _ _ _ => ?_)
    · by_cases hi : i = conn
      · rw [hi]
        exact .inr hnew
      · rw [setCall_tcp, setSocket_tcp] at ha hop ⊢
        rw [show ({ s with nextEphemeralPort := n, tcp := tcp } : SocketTable).tcp.conns i = s.tcp.conns i from
          ho.other i hi] at ha hop ⊢
        exact .inl ⟨ha, hop, rfl⟩
    · rw [setCall_tcp, setSocket_tcp, setCall_sockets, setSocket_self] at *
      by_cases hi : i = conn
      · rw [setCall_self]
        refine ⟨⟨?_, ?_, .inr (.inr ⟨_, rfl⟩)⟩, hi.symm⟩
        · split <;> exact htype
        · split <;> exact (nomatch ·)
      · simp only [ho.other i hi] at ha hop hm
        have hopened : (s.tcp.conns i).serial ∈ (s.sockets fd).opened ++ [(tcp.conns conn).serial] := by
          split at hm <;> exact hm
        rcases mem_append.mp hopened with hm' | hm'
        · exact absurd hm' (hno i ha hop)
        · have hlt := hinv.sound.numbered i ha
          rw [mem_singleton.mp hm', ho.serial] at hlt
          exact absurd hlt (Nat.lt_irrefl _)
    · rw [setCall_self]
      exact .inr ⟨_, rfl⟩
  · exact h.connectNone hcall hk hc rfl rfl rfl

/-- After `tcp_close` the connection is not open, and the others are as they were. -/
theorem close_back (s : TcpTable) (env : TcpEnv) (i j : ConnSlot) (ha : ((s.tcpClose env i).2.conns j).active = true)
    (ho : OpenState ((s.tcpClose env i).2.conns j).state) :
    j ≠ i ∧ (s.tcpClose env i).2.conns j = s.conns j ∧ (s.conns j).active = true ∧ OpenState (s.conns j).state := by
  have hne : j ≠ i := by
    rintro rfl
    obtain ⟨hf, he⟩ | ⟨-, c, t, he, hconns, -, -, -, -, hstate, -⟩ := tcpClose_cases s env j
    · rw [he] at ha
      rw [hf] at ha
      cases ha
    · rw [he, hconns, Function.update_self, hstate] at ho
      split at ho <;> exact absurd ho (by decide)
  have he := @close_other s env i j hne
  rw [he] at ha ho
  exact ⟨hne, he, ha, ho⟩

theorem OneLink.close (h : OneLink s) (hcall : s.calls fd = none) : OneLink (s.socketClose env fd).2 := by
  unfold socketClose
  simp only
  split
  · exact h
  split
  · have hun := @OneLink.unlink s fd (s.tcp.tcpClose env.tcp (s.sockets fd).protocolData).2 h
      { s.sockets fd with state := .unused } (fun i ha ho => by
        obtain ⟨-, he, ha', ho'⟩ := close_back s.tcp env.tcp _ i ha ho
        exact ⟨ha', ho', by rw [he]⟩) (fun _ _ _ _ => rfl) (.inl rfl)
    rwa [@setCall_none { s with tcp := (s.tcp.tcpClose env.tcp (s.sockets fd).protocolData).2 } fd hcall] at hun
  · have hun := @OneLink.unlink s fd s.tcp h { s.sockets fd with state := .unused } (fun i ha ho => ⟨ha, ho, rfl⟩)
      (fun _ _ _ _ => rfl) (.inl rfl)
    rwa [@setCall_none s fd hcall] at hun

theorem OneLink.turn (h : OneLink s) (hinv : SocketInv s) : OneLink (s.socketTurn env fd).2 := by
  have hw := hinv.waiting fd
  unfold socketTurn
  simp only
  split
  · exact h
  · rename_i w hcall
    rw [hcall] at hw
    have hu : (s.sockets fd).state ≠ .unused := by
      rw [hw.2]
      exact (nomatch ·)
    obtain ⟨r, he, hr⟩ | ⟨w', tcp', he, hres⟩ := @waitTurn_cases env s.tcp (s.sockets fd).protocolData .established
      (s.sockets fd).timeoutMs w
    · simp only [he]
      split
      · refine h.unlink (fun i ha ho => ?_) (fun i ha ho hs => ?_) (.inr (.inl rfl))
        · obtain ⟨-, he', ha', ho'⟩ := close_back s.tcp env.tcp _ i ha ho
          exact ⟨ha', ho', by rw [he']⟩
        · obtain ⟨hne, he', ha', ho'⟩ := close_back s.tcp env.tcp _ i ha ho
          rw [he'] at hs
          exact absurd (h.linked fd i ha' ho' hs hu).2.symm hne
      · refine h.kept fd (.refl _) (fun fd' hfd => ⟨setSocket_other _ hfd, setCall_other _ hfd⟩) ?_ ?_ ?_ ?_
        · rw [setSocket_self]
          exact fun _ hx => hx
        · exact fun hs => absurd hs hu
        · rw [setSocket_self]
          exact fun _ _ => ⟨⟨hw.1, (nomatch ·), .inr (.inl rfl)⟩, rfl⟩
        · rw [setSocket_self]
          exact fun _ _ _ => .inl rfl
    · simp only [he]
      exact (h.network hres.connsKept).setCall (.inr ⟨fun _ => ⟨_, rfl⟩, fun _ => ⟨w, hcall⟩⟩)
  · rename_i w data hcall
    rw [hcall] at hw
    have hended : OneLink (s.setCall fd none) := h.setCall (.inl hw.2)
    obtain ⟨r, he, -⟩ | ⟨w', tcp', he, hres⟩ := @waitTurn_cases env s.tcp (s.sockets fd).protocolData .established
      (s.sockets fd).timeoutMs w
    · simp only [he]
      split
      · exact hended.setSocket rfl rfl rfl rfl
      · exact hended.network (resent_send _).connsKept
    · simp only [he]
      exact (h.network hres.connsKept).setCall (.inl hw.2)
  · rename_i elapsed len hcall
    rw [hcall] at hw
    have hended : OneLink (s.setCall fd none) := h.setCall (.inl hw.2)
    have hk := @recvTurn_kept env s.tcp (s.sockets fd).protocolData (s.sockets fd).timeoutMs elapsed len
    split
    · rename_i e tcp' he
      rw [he] at hk
      exact (h.network hk).setCall (.inl hw.2)
    · rename_i r tcp' he
      rw [he] at hk
      have hend : OneLink ({ s with tcp := tcp' }.setCall fd none) := hended.network hk
      simp only
      split
      · exact hend.setSocket rfl rfl rfl rfl
      · exact hend

theorem OwnerSafe.unreset {op : SocketOp} (h : OwnerSafe s op) : Unreset s op := by
  cases op with
  | segment srcIp dstIp bytes => exact h
  | _ => trivial

theorem step_oneLink (h : OneLink s) (hinv : SocketInv s) (op : SocketOp) (hop : OwnerSafe s op) :
    OneLink (socketStep env s op) := by
  cases op with
  | create type => exact h.create type
  | connect fd addr port =>
    exact idle_step OneLink h fun hcall => h.connect hinv hcall hop addr port
  | send fd data =>
    refine idle_step OneLink h fun _ => ?_
    unfold socketSend
    simp only
    split
    · exact h
    rename_i hst
    split
    · exact h.setCall (.inl (not_not.mp hst))
    split
    · exact ⟨h.linked, h.busy⟩
    · exact h
  | recv fd len =>
    refine idle_step OneLink h fun _ => ?_
    unfold socketRecv
    simp only
    split
    · exact h
    rename_i hst
    split
    · exact h.setCall (.inl (not_not.mp hst))
    split <;> exact h
  | close fd =>
    exact idle_step OneLink h fun hcall => h.close hcall
  | turn fd => exact h.turn hinv
  | segment srcIp dstIp bytes => exact h.network (segment_connsKept hinv.sound.heap srcIp dstIp bytes hop)
  | timerTick => exact h.network timerTick_connsKept
  | setTimeout fd ms =>
    unfold socketStep SocketTable.setTimeout
    simp only
    split
    · exact h
    · exact h.setSocket rfl rfl rfl rfl

theorem ownerSafe_inv (h : SocketRun env OwnerSafe s) : SocketInv s ∧ OneLink s := by
  induction h with
  | init => exact ⟨init_socketInv, ⟨fun _ _ _ _ _ hu => absurd rfl hu, fun _ _ hu => absurd rfl hu⟩⟩
  | step op hp _ ih => exact ⟨step_socketInv ih.1 op hp.unreset, step_oneLink ih.2 ih.1 op hp⟩

theorem close_closes (h : OneLink s) (hcall : s.calls fd = none) (hc : ConnectedStream (s.sockets fd))
    (hop : OwnerSafe s (.close fd)) (i : ConnSlot) (ha : ((socketStep env s (.close fd)).tcp.conns i).active = true)
    (hs : ((socketStep env s (.close fd)).tcp.conns i).serial ∈ (s.sockets fd).opened) :
    ¬OpenState ((socketStep env s (.close fd)).tcp.conns i).state := by
  intro ho
  have hu : (s.sockets fd).state ≠ .unused := by
    rw [hc.2]
    exact (nomatch ·)
  have hpd : (s.sockets fd).protocolData ≠ 0 := fun hp => hop ⟨hc, hp⟩
  have htcp : (socketStep env s (.close fd)).tcp = (s.tcp.tcpClose env.tcp (s.sockets fd).protocolData).2 := by
    unfold socketStep socketClose
    simp [hcall, hu, hc.1, hpd]
  rw [htcp] at ha hs ho
  obtain ⟨hne, he, ha', ho'⟩ := close_back s.tcp env.tcp _ i ha ho
  rw [he] at hs
  exact hne (h.linked fd i ha' ho' hs hu).2.symm

/-- In a run of these operations an operation on a socket touches only connections that this
socket opened, closing it closes them, and each buffer of a connection is freed once, when
its place is no longer active at the latest. -/
theorem sockets_own_connections (h : SocketRun env OwnerSafe s) :
    (∀ fd, ConnectedStream (s.sockets fd) → (s.tcp.conns (s.sockets fd).protocolData).active = true ∧
      (s.tcp.conns (s.sockets fd).protocolData).serial ∈ (s.sockets fd).opened ∧
      ∀ fd', (s.tcp.conns (s.sockets fd).protocolData).serial ∈ (s.sockets fd').opened → fd' = fd) ∧
    (∀ op fd, op.socket = some fd → LeavesOthers (s.sockets fd).opened s.tcp (socketStep env s op).tcp) ∧
    (∀ fd, s.calls fd = none → ConnectedStream (s.sockets fd) → OwnerSafe s (.close fd) → ∀ i,
      ((socketStep env s (.close fd)).tcp.conns i).active = true →
      ((socketStep env s (.close fd)).tcp.conns i).serial ∈ (s.sockets fd).opened →
      ¬OpenState ((socketStep env s (.close fd)).tcp.conns i).state) ∧
    ∀ b < s.tcp.allocated, s.tcp.freed.count b ≤ 1 ∧ (s.tcp.freed.count b = 0 → ∃ i, (s.tcp.conns i).active = true ∧
      (b ∈ (s.tcp.conns i).sendBuf ∨ b ∈ (s.tcp.conns i).recvBuf)) := by
  obtain ⟨hinv, hone⟩ := ownerSafe_inv h
  refine ⟨fun fd hc => ?_, fun op fd hfd => step_leaves hinv op hfd,
    fun fd hcall hc hop i => close_closes hone hcall hc hop i, fun b hb => ?_⟩
  · have ha := hinv.attached fd ⟨hc.1, by rw [hc.2]; exact (nomatch ·), .inr (.inl hc.2)⟩
    exact ⟨ha.active, ha.opened, fun fd' hm => hinv.once fd' fd _ hm ha.opened⟩
  · have hcount := hinv.sound.heap.counted b
    rw [if_pos hb] at hcount
    refine ⟨by omega, fun hz => ?_⟩
    have hsum : ∑ i, (heldBy (s.tcp.conns i)).count b ≠ 0 := by omega
    obtain ⟨i, -, hi⟩ := Finset.exists_ne_zero_of_sum_ne_zero hsum
    have hmem : b ∈ heldBy (s.tcp.conns i) := count_pos_iff.mp (Nat.pos_of_ne_zero hi)
    unfold heldBy at hmem
    split at hmem
    · rename_i ha
      refine ⟨i, ha, ?_⟩
      rcases mem_append.mp hmem with hm | hm
      · exact .inl (Option.mem_toList.mp hm)
      · exact .inr (Option.mem_toList.mp hm)
    · cases hmem

end

theorem sockets_own_connections_one :
    let s := socketsAfter connectOne
    (s.tcp.conns 0).serial ∈ (s.sockets 0).opened ∧ s.tcp.freed.count 1 ≤ 1 := by
  intro s
  have hrun : SocketRun plainSocketEnv OwnerSafe s := by
    refine .step (.turn 0) trivial (.step (peerSegment 0x12 5 8 239 114 []) ?_
      (.step (.connect 0 0x01000000 0x5000) ?_ (.step (.create 1) trivial .init)))
    · exact unreset_noRst (by decide : NoRst (peerSegment 0x12 5 8 239 114 [])) _
    · exact (by decide : ¬ConnectedStream ((socketsAfter [.create 1]).sockets 0))
  have hown := sockets_own_connections hrun
  have hindex : (s.sockets 0).protocolData = 0 := by decide
  have hfirst := (hown.1 0 (by decide)).2.1
  rw [hindex] at hfirst
  exact ⟨hfirst, (hown.2.2.2 1 (by decide)).1⟩

/-- The first socket that connects gets index 0, which `socket_close` takes for `NULL`: its
connection stays open with both its buffers. -/
theorem close_keeps_first :
    let s := socketsAfter connectOne
    let t := socketStep plainSocketEnv s (.close 0)
    SocketRun plainSocketEnv (fun _ _ => True) s ∧ ConnectedStream (s.sockets 0) ∧ (t.sockets 0).state = .unused ∧
      (s.sockets 0).opened = [0] ∧ (t.tcp.conns 0).serial = 0 ∧ (t.tcp.conns 0).active = true ∧
      OpenState (t.tcp.conns 0).state ∧ t.tcp.freed = [] := by
  intro s t
  refine ⟨socketRun_foldl (fun _ _ _ => trivial) .init, ?_, ?_, ?_, ?_, ?_, ?_, ?_⟩ <;> decide

end CapyOS.Proofs
