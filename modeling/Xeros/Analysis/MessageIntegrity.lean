import Xeros.Analysis.Runs
import Xeros.Interface.Links
import Xeros.Refinement.Copying

/-!
# Integrity of messages

A message is copied by a string routine, so what follows a zero byte arrives as zeros.  A rendezvous
hands over the first bytes of the sender's buffer exactly when none of them is a zero byte in front
of a non-zero one.
-/

set_option autoImplicit false

namespace Xeros.Analysis

open Xeros.Foundations Xeros.Model KernelOf

variable {s s' : Kernel} {src dst : PcbPtr} {req : SyscallRequest} {t : Trap}

/-- The number of bytes that a rendezvous of `src` and `dst` is about. -/
def messageLen (s : Kernel) (src dst : PcbPtr) : ℕ := min (s.argOf dst 2) (s.argOf src 2)

/-- The receiver's buffer has got the first bytes of the sender's buffer, and is otherwise as it
was. -/
structure Intact (s : Kernel) (src dst : PcbPtr) (s' : Kernel) : Prop where
  message : ∀ i < messageLen s src dst,
    load8 s'.mem (s.argOf dst 1 + i) = load8 s.mem (s.argOf src 1 + i)
  rest : ∀ i, messageLen s src dst ≤ i → i < s.argOf dst 2 →
    load8 s'.mem (s.argOf dst 1 + i) = load8 s.mem (s.argOf dst 1 + i)

/-- The system calls accept the buffers of the two processes. -/
structure Accepted (s : Kernel) (src dst : PcbPtr) : Prop where
  sender : s.verifyUsrptr (s.argOf src 1) (toInt (s.argOf src 2)) = some ok
  receiver : s.verifyUsrptr (s.argOf dst 1) (toInt (s.argOf dst 2)) = some ok

/-- The `len` bytes at `a` and the word at `w` have no byte in common. -/
def ApartFrom (w a len : ℕ) : Prop :=
  ∀ i < len, ∀ j < 4, (a + i) % 4294967296 ≠ (w + j) % 4294967296

/-- The buffers do not overlap; nor does the word for the sender's pid overlap them or the arguments
of the two calls, if it is written. -/
structure Apart (s : Kernel) (src dst : PcbPtr) : Prop where
  buffers : s.argOf src 1 + s.argOf src 2 ≤ s.argOf dst 1 ∨
    s.argOf dst 1 + s.argOf dst 2 ≤ s.argOf src 1
  sender : s.TakesAny dst → ApartFrom (s.argOf dst 0) (s.argOf src 1) (s.argOf src 2)
  receiver : s.TakesAny dst → ApartFrom (s.argOf dst 0) (s.argOf dst 1) (s.argOf dst 2)
  arguments : s.TakesAny dst → ∀ p, p = src ∨ p = dst →
    ApartFrom (s.argOf dst 0) ((s.pcb p).args + 4) 8

/-- No zero byte stands in front of a non-zero byte of the message. -/
def NoInnerZero (s : Kernel) (src dst : PcbPtr) : Prop :=
  ∀ i j, j < i → i < messageLen s src dst →
    load8 s.mem (s.argOf src 1 + j) = 0 → load8 s.mem (s.argOf src 1 + i) = 0

/-- An accepted buffer has a positive length and lies in the lower half of the address space. -/
theorem accepted_range {h : Heap} {a len : ℕ} (hlen : len < 4294967296) (ha : a < 4294967296)
    (hv : h.verifyUsrptr a (toInt len) = some ok) : 0 < len ∧ len < 16384 ∧ a < 2147483648 := by
  unfold Heap.verifyUsrptr at hv
  obtain ⟨_, hrange, hv⟩ := Option.bind_eq_some_iff.mp hv
  have hrange := cAssert_eq_some.mp hrange
  have hk : kernelStack = 16384 := rfl
  have hlow : ¬ toInt a ≤ 0 := by
    intro hle
    dsimp only at hv
    rw [if_pos (.inl hle)] at hv
    exact absurd hv (by decide)
  unfold toInt wrapInt at hrange hlow
  omega

theorem load32_announced {m : Memory} {w a v : ℕ} (h : ApartFrom w a 4) :
    load32 (store32 m w v) a = load32 m a :=
  load32_store32_of_disjoint m w v a fun i hi j hj => h i hi j hj

theorem ApartFrom.mono {w a b len len' : ℕ} (h : ApartFrom w a len) (hb : a ≤ b)
    (hlen : b + len' ≤ a + len) : ApartFrom w b len' := by
  intro i hi j hj
  rw [show b + i = a + (b - a + i) by omega]
  exact h _ (by omega) j hj

/-- The pid that is stored for the receiver changes neither the arguments nor the buffers. -/
theorem Announced.same {m : Memory} (h : s.Announced src dst m) (hap : Apart s src dst) :
    (∀ p, p = src ∨ p = dst → ∀ i v, i = 1 ∨ i = 2 → s.ReadArg m p i v → v = s.argOf p i) ∧
    (∀ i < s.argOf src 2, load8 m (s.argOf src 1 + i) = load8 s.mem (s.argOf src 1 + i)) ∧
    ∀ i < s.argOf dst 2, load8 m (s.argOf dst 1 + i) = load8 s.mem (s.argOf dst 1 + i) := by
  rcases h with rfl | ⟨hany, rfl⟩
  · refine ⟨fun p _ i v _ hv => hv.elim id id, fun _ _ => rfl, fun _ _ => rfl⟩
  · refine ⟨fun p hp i v hi hv => ?_, fun i hi => ?_, fun i hi => ?_⟩
    · rcases hv with hv | hv
      · exact hv
      · rw [hv]
        refine load32_announced ((hap.arguments hany p hp).mono ?_ ?_)
        · rcases hi with rfl | rfl <;> omega
        · rcases hi with rfl | rfl <;> omega
    · exact load8_store32_of_ne _ _ _ _ (hap.sender hany i hi)
    · exact load8_store32_of_ne _ _ _ _ (hap.receiver hany i hi)

/-- A copy is right exactly when no zero byte stands in front of a non-zero one. -/
theorem strncpyByte_eq_iff (m : Memory) (a n : ℕ) :
    (∀ i < n, strncpyByte m a i = load8 m (a + i)) ↔
      ∀ i j, j < i → i < n → load8 m (a + j) = 0 → load8 m (a + i) = 0 := by
  constructor
  · intro h i j hji hi hz
    rw [← h i hi]
    exact if_pos ⟨j, hji, hz⟩
  · intro h i hi
    unfold strncpyByte
    split_ifs with hz
    · obtain ⟨j, hji, hj⟩ := hz
      exact (h i j hji hi hj).symm
    · rfl

/-- One message is handed over. -/
theorem handsOver_intact_iff (h : s.HandsOver src dst s') (hacc : Accepted s src dst)
    (hap : Apart s src dst) : Intact s src dst s' ↔ NoInnerZero s src dst := by
  obtain ⟨-, m, rb, rl, sb, sl, hann, hrb, hrl, hsb, hsl, hmem⟩ := h
  obtain ⟨hargs, hsrc, hdst⟩ := Announced.same hann hap
  rw [hargs dst (.inr rfl) 1 rb (.inl rfl) hrb, hargs dst (.inr rfl) 2 rl (.inr rfl) hrl,
    hargs src (.inl rfl) 1 sb (.inl rfl) hsb, hargs src (.inl rfl) 2 sl (.inr rfl) hsl] at hmem
  have hsrange : 0 < s.argOf src 2 ∧ s.argOf src 2 < 16384 ∧ s.argOf src 1 < 2147483648 :=
    accepted_range (load32_lt _ _) (load32_lt _ _) hacc.sender
  have hdrange : 0 < s.argOf dst 2 ∧ s.argOf dst 2 < 16384 ∧ s.argOf dst 1 < 2147483648 :=
    accepted_range (load32_lt _ _) (load32_lt _ _) hacc.receiver
  have hbuf := hap.buffers
  obtain ⟨a, ha⟩ : ∃ a, s.argOf src 1 = a := ⟨_, rfl⟩
  obtain ⟨b, hb⟩ : ∃ b, s.argOf dst 1 = b := ⟨_, rfl⟩
  obtain ⟨n, hn⟩ : ∃ n, messageLen s src dst = n := ⟨_, rfl⟩
  have hnle : n ≤ s.argOf src 2 ∧ n ≤ s.argOf dst 2 := by
    rw [← hn]
    exact ⟨min_le_right _ _, min_le_left _ _⟩
  have hnat : (toInt (min (s.argOf dst 2) (s.argOf src 2))).toNat = n := by
    have hmin : min (s.argOf dst 2) (s.argOf src 2) = n := hn
    rw [hmin]
    unfold toInt wrapInt
    omega
  have hload : ∀ i < s.argOf dst 2, load8 s'.mem (b + i) =
      if i < n then strncpyByte m a i else load8 s.mem (b + i) := by
    intro i hi
    have hcopy : s'.mem = strncpyLoop m b a n := by
      rw [hmem, strncpy, hnat, ha, hb]
    rw [hcopy, load8_strncpyLoop m (by omega) (by omega) (by omega) (by omega)]
    by_cases hin : i < n
    · rw [if_pos hin, if_pos (by omega), Nat.add_sub_cancel_left]
    · rw [if_neg hin, if_neg (by omega), ← hb]
      exact hdst i hi
  have hsame : ∀ i < n, load8 m (a + i) = load8 s.mem (a + i) := by
    intro i hi
    rw [← ha]
    exact hsrc i (by omega)
  have hcopied : ∀ i < n, strncpyByte m a i = strncpyByte s.mem a i := by
    intro i hi
    unfold strncpyByte
    have hiff : (∃ j < i, load8 m (a + j) = 0) ↔ ∃ j < i, load8 s.mem (a + j) = 0 := by
      constructor
      · rintro ⟨j, hj, hz⟩
        exact ⟨j, hj, by rw [← hsame j (by omega)]; exact hz⟩
      · rintro ⟨j, hj, hz⟩
        exact ⟨j, hj, by rw [hsame j (by omega)]; exact hz⟩
    rw [hsame i hi]
    exact if_congr hiff rfl rfl
  have hno : NoInnerZero s src dst ↔ ∀ i < n, strncpyByte s.mem a i = load8 s.mem (a + i) := by
    rw [strncpyByte_eq_iff]
    unfold NoInnerZero
    rw [ha, hn]
  rw [hno]
  constructor
  · intro h i hi
    have hi' := h.message i (by rw [hn]; exact hi)
    rw [hb, ha, hload i (by omega), if_pos hi, hcopied i hi] at hi'
    exact hi'
  · intro h
    refine ⟨fun i hi => ?_, fun i hi hlt => ?_⟩
    · rw [hn] at hi
      rw [hb, ha, hload i (by omega), if_pos hi, hcopied i hi]
      exact h i hi
    · rw [hn] at hi
      rw [hb, hload i hlt, if_neg (by omega)]

/-- The running process and the one it meets exchange a message in this turn of the dispatcher. -/
structure Exchange (s : Kernel) (req : SyscallRequest) (src dst : PcbPtr) (s' : Kernel) : Prop where
  request : req = .send ∨ req = .recv
  transferred : s'.transfers = s.transfers ++ [(src, dst)]

/-- A message arrives intact exactly when no zero byte of it stands in front of a non-zero byte. -/
theorem message_intact_iff (hs : s.dispatchRequest t req = some s')
    (hex : Exchange s req src dst s') (hacc : Accepted s src dst) (hap : Apart s src dst) :
    Intact s src dst s' ↔ NoInnerZero s src dst := by
  have hhand : ∀ a b, s.CopiesAtMost a b s' → s.HandsOver src dst s' := by
    intro a b h
    rcases h with h | h
    · have hlen := congrArg List.length (h.symm.trans hex.transferred)
      simp at hlen
    · have heq := h.1.symm.trans hex.transferred
      obtain ⟨rfl, rfl⟩ := Prod.mk.inj (List.cons.inj (List.append_cancel_left heq)).1
      exact h
  refine handsOver_intact_iff ?_ hacc hap
  rcases hex.request with rfl | rfl
  · obtain ⟨dest, h⟩ := dispatchSyscallSend_copies hs
    exact hhand _ _ h
  · obtain ⟨source, h⟩ := dispatchSyscallRecv_copies hs
    exact hhand _ _ h

/-! ## Sending a number -/

/-- Send the number `w` to process 33. -/
def sendNumber (w : ℕ) : Act := .call [9, 33, 1950000, 4] [(1950000, [w])]

/-- The root process receives four bytes from process 34, which sends it the number `w`. -/
def numberScript (w : ℕ) : List Act :=
  [.call [2, 40400, 8192] [], .call [10, 1900000, 1900100, 4] [(1900000, [34])], sendNumber w]

/-- The kernel when process 34 sends. -/
structure Sending (w : ℕ) (s : Kernel) : Prop where
  src : s.currproc = .table 1 ∧ s.argOf (.table 1) 1 = 1950000 ∧ s.argOf (.table 1) 2 = 4
  dst : s.argOf (.table 0) 1 = 1900100 ∧ s.argOf (.table 0) 2 = 4
  named : (s.pcb (.table 0)).blockingQueueName ≠ .receiveAny
  sender : s.verifyUsrptr 1950000 4 = some ok
  receiver : s.verifyUsrptr 1900100 4 = some ok
  word : load32 s.mem 1950000 = w
  transfers : s.transfers = []

instance (w : ℕ) (s : Kernel) : Decidable (Sending w s) :=
  decidable_of_iff ((s.currproc = .table 1 ∧ s.argOf (.table 1) 1 = 1950000 ∧
    s.argOf (.table 1) 2 = 4) ∧ (s.argOf (.table 0) 1 = 1900100 ∧ s.argOf (.table 0) 2 = 4) ∧
    (s.pcb (.table 0)).blockingQueueName ≠ .receiveAny ∧ s.verifyUsrptr 1950000 4 = some ok ∧
    s.verifyUsrptr 1900100 4 = some ok ∧ load32 s.mem 1950000 = w ∧ s.transfers = [])
    ⟨fun ⟨h1, h2, h3, h4, h5, h6, h7⟩ => ⟨h1, h2, h3, h4, h5, h6, h7⟩,
      fun ⟨h1, h2, h3, h4, h5, h6, h7⟩ => ⟨h1, h2, h3, h4, h5, h6, h7⟩⟩

theorem Sending.accepted {w : ℕ} (h : Sending w s) : Accepted s (.table 1) (.table 0) := by
  constructor
  · rw [h.src.2.1, h.src.2.2]
    exact h.sender
  · rw [h.dst.1, h.dst.2]
    exact h.receiver

theorem Sending.apart {w : ℕ} (h : Sending w s) : Apart s (.table 1) (.table 0) := by
  have hnot : ¬ s.TakesAny (.table 0) := by
    rintro (hany | ⟨hcur, -⟩)
    · exact h.named hany
    · rw [h.src.1] at hcur
      simp at hcur
  refine ⟨.inr ?_, fun hany => absurd hany hnot, fun hany => absurd hany hnot,
    fun hany => absurd hany hnot⟩
  rw [h.dst.1, h.dst.2, h.src.2.1]
  decide

/-- The script is a run that ends with the exchange, and the receiver has got the number `v`. -/
theorem exists_exchange {w v : ℕ} (h : perform (Q := Links) smallPc 40300
    (fun s t => t.request = some .send → ∀ u ∈ s.atTrap t, Sending w u) (numberScript w)
    (fun n s => match n with
      | 2 => decide (((sendNumber w).trap s).request = some .send)
      | 3 => decide (s.transfers = [(.table 1, .table 0)] ∧ load32 s.mem 1900100 = v)
      | _ => true) = true) :
    ∃ r : Run Links, ∃ u, (r.state 2).atTrap (r.input 2) = some u ∧ Sending w u ∧
      u.dispatchRequest (r.input 2) .send = some (r.state 3) ∧
      Exchange u .send (.table 1) (.table 0) (r.state 3) ∧ load32 (r.state 3).mem 1900100 = v := by
  obtain ⟨r, hlen, hcheck, hin, htest⟩ := exists_run smallPc 40300 _ (numberScript w) _ h
  have hlen3 : r.len = 3 := hlen
  obtain ⟨u, req, hu, hreq, hdis⟩ := dispatchStep_eq_some (r.next 2 (by omega))
  obtain ⟨htr, hv⟩ := of_decide_eq_true (htest 3 (le_refl 3))
  have hsend : (r.input 2).request = some .send := by
    rw [hin 2 (sendNumber w) rfl]
    exact of_decide_eq_true (htest 2 (by simp [numberScript]))
  obtain rfl : SyscallRequest.send = req := Option.some.inj (hsend.symm.trans hreq)
  have hs := hcheck 2 (by omega) hsend u hu
  refine ⟨r, u, hu, hs, hdis, ⟨.inl rfl, ?_⟩, hv⟩
  rw [htr, hs.transfers]
  rfl

/-- The number 7 arrives. -/
theorem message_intact_seven : ∃ r : Run Links, ∃ u,
    (r.state 2).atTrap (r.input 2) = some u ∧ Exchange u .send (.table 1) (.table 0) (r.state 3) ∧
      (Intact u (.table 1) (.table 0) (r.state 3) ↔ NoInnerZero u (.table 1) (.table 0)) := by
  obtain ⟨r, u, hu, hs, hdis, hex, -⟩ := exists_exchange (w := 7) (v := 7) (by decide +kernel)
  exact ⟨r, u, hu, hex, message_intact_iff hdis hex hs.accepted hs.apart⟩

/-- The number 256 does not arrive: its lowest byte is zero. -/
theorem message_mangled : ∃ r : Run Links, ∃ u, (r.state 2).atTrap (r.input 2) = some u ∧
    Sending 256 u ∧ Exchange u .send (.table 1) (.table 0) (r.state 3) ∧
      Accepted u (.table 1) (.table 0) ∧ Apart u (.table 1) (.table 0) ∧
      load32 (r.state 3).mem 1900100 = 0 ∧ ¬ Intact u (.table 1) (.table 0) (r.state 3) := by
  obtain ⟨r, u, hu, hs, -, hex, hv⟩ := exists_exchange (w := 256) (v := 0) (by decide +kernel)
  refine ⟨r, u, hu, hs, hex, hs.accepted, hs.apart, hv, ?_⟩
  intro h
  have hlen : messageLen u (.table 1) (.table 0) = 4 := by
    unfold messageLen
    rw [hs.src.2.2, hs.dst.2]
    rfl
  have hword : load32 (r.state 3).mem 1900100 = load32 u.mem 1950000 := by
    have h' := h.message
    rw [hlen, hs.src.2.1, hs.dst.1] at h'
    unfold load32
    rw [h' 1 (by omega), h' 2 (by omega), h' 3 (by omega)]
    have h0 := h' 0 (by omega)
    rw [Nat.add_zero, Nat.add_zero] at h0
    rw [h0]
  rw [hv, hs.word] at hword
  exact absurd hword (by decide)

end Xeros.Analysis
