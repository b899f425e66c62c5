import TNL.Connection.Header
import TNL.Library.Run

/-!
# Client puzzles

A server hands out a nonce, and a client returns its own nonce with a solution
of the puzzle the two make. Solutions are accepted for the current server nonce
and the one before; a table for each of the two keeps the client nonces already
used. Random values are inputs, and so is the hash function.
-/
namespace TNL.ClientPuzzle
open Library

/-- The eight bytes of a nonce. -/
abbrev NonceBytes : Type := Vector (BitVec 8) 8

def readU32FromBuffer (b₀ b₁ b₂ b₃ : BitVec 8) : U32 := b₀ ++ b₁ ++ b₂ ++ b₃

/-- The bytes of an integer, the most significant first. -/
def writeU32ToBuffer (value : U32) : List (BitVec 8) :=
  [(value >>> 24).setWidth 8, (value >>> 16).setWidth 8, (value >>> 8).setWidth 8,
    value.setWidth 8]

/-- Chains of nonces, the newest first. -/
structure NonceTable where
  mHashTableSize : ℕ
  mHashTable : ℕ → List NonceBytes

namespace NonceTable

def minHashTableSize : ℕ := 127
def maxHashTableSize : ℕ := 387

/-- `random` is the value `Random::readI` starts from. -/
def reset (random : U32) : NonceTable where
  mHashTableSize :=
    (random.toNat % (maxHashTableSize - minHashTableSize + 1) + minHashTableSize) * 2 + 1
  mHashTable := fun _ => []

def hashIndex (t : NonceTable) (n : NonceBytes) : ℕ :=
  let nonce1 := readU32FromBuffer n[0] n[1] n[2] n[3]
  let nonce2 := readU32FromBuffer n[4] n[5] n[6] n[7]
  (nonce1 ++ nonce2).toNat % t.mHashTableSize

/-- A new entry at the head of its chain. -/
def addEntry (t : NonceTable) (n : NonceBytes) : NonceTable :=
  { t with
    mHashTable := Function.update t.mHashTable (t.hashIndex n) (n :: t.mHashTable (t.hashIndex n)) }

/-- False when the nonce was there before. -/
def checkAdd (t : NonceTable) (n : NonceBytes) : Bool × NonceTable :=
  if n ∈ t.mHashTable (t.hashIndex n) then (false, t) else (true, t.addEntry n)

/-- The set that a table stands for. -/
def Used (t : NonceTable) (n : NonceBytes) : Prop := n ∈ t.mHashTable (t.hashIndex n)

theorem not_used_reset (random : U32) (n : NonceBytes) : ¬ (reset random).Used n := by
  simp [Used, reset]

theorem checkAdd_fst (t : NonceTable) (n : NonceBytes) : (t.checkAdd n).1 = true ↔ ¬ t.Used n := by
  rw [checkAdd, Used]
  split_ifs with h <;> simp [h]

theorem hashIndex_addEntry (t : NonceTable) (n : NonceBytes) :
    (t.addEntry n).hashIndex = t.hashIndex := rfl

theorem checkAdd_used (t : NonceTable) (n m : NonceBytes) :
    (t.checkAdd n).2.Used m ↔ m = n ∨ t.Used m := by
  by_cases h : n ∈ t.mHashTable (t.hashIndex n)
  · rw [checkAdd, if_pos h]
    constructor
    · exact .inr
    · rintro (rfl | hm)
      · exact h
      · exact hm
  · rw [checkAdd, if_neg h, Used, Used, hashIndex_addEntry, addEntry]
    by_cases hidx : t.hashIndex m = t.hashIndex n
    · simp [hidx]
    · simp only [Function.update_of_ne hidx]
      constructor
      · exact .inr
      · rintro (rfl | hm)
        · exact absurd rfl hidx
        · exact hm

end NonceTable

structure ClientPuzzleManager where
  mCurrentDifficulty : U32
  mLastUpdateTime : U32
  mLastTickTime : U32
  mCurrentNonce : NonceBytes
  mLastNonce : NonceBytes
  mCurrentNonceTable : NonceTable
  mLastNonceTable : NonceTable

namespace ClientPuzzleManager

def puzzleRefreshTime : U32 := 30000
def initialPuzzleDifficulty : U32 := 17

inductive ErrorCode where
  | success
  | invalidSolution
  | invalidServerNonce
  | invalidClientNonce
  | invalidPuzzleDifficulty
  deriving DecidableEq

/-- The constructor, with the random nonces and the values its tables start from. -/
def new (current last : NonceBytes) (random₁ random₂ : U32) : ClientPuzzleManager where
  mCurrentDifficulty := initialPuzzleDifficulty
  mLastUpdateTime := 0
  mLastTickTime := 0
  mCurrentNonce := current
  mLastNonce := last
  mCurrentNonceTable := .reset random₁
  mLastNonceTable := .reset random₂

/-- Whether a tick at this time replaces the server nonce. -/
def refreshes (m : ClientPuzzleManager) (currentTime : U32) : Bool :=
  currentTime - m.mLastUpdateTime > puzzleRefreshTime

/-- `fresh` is the nonce that a refresh draws. -/
def tick (m : ClientPuzzleManager) (currentTime random : U32) (fresh : NonceBytes) :
    ClientPuzzleManager :=
  let m := if m.mLastTickTime = 0 then { m with mLastTickTime := currentTime } else m
  if m.refreshes currentTime then
    { m with
      mLastUpdateTime := currentTime
      mLastNonce := m.mCurrentNonce
      mLastNonceTable := m.mCurrentNonceTable
      mCurrentNonceTable := .reset random
      mCurrentNonce := fresh }
  else m

/-- Whether the bytes from `index` on start with the given number of zero bits. -/
def leadingZeros (hash : ℕ → BitVec 8) (index puzzleDifficulty : ℕ) : Bool :=
  if 8 < puzzleDifficulty then
    if hash index ≠ 0 then false else leadingZeros hash (index + 1) (puzzleDifficulty - 8)
  else ((0xFF#8 <<< (8 - puzzleDifficulty)) &&& hash index) = 0
  termination_by puzzleDifficulty

def checkOneSolution (sha256 : List (BitVec 8) → ℕ → BitVec 8) (solution : U32)
    (clientNonce serverNonce : NonceBytes) (puzzleDifficulty clientIdentity : U32) : Bool :=
  leadingZeros (sha256 (writeU32ToBuffer solution ++ writeU32ToBuffer clientIdentity ++
    clientNonce.toList ++ serverNonce.toList)) 0 puzzleDifficulty.toNat

/-- What a client submits. -/
structure Submission where
  solution : U32
  clientNonce : NonceBytes
  serverNonce : NonceBytes
  puzzleDifficulty : U32
  clientIdentity : U32

variable (sha256 : List (BitVec 8) → ℕ → BitVec 8)

def checkSolution (m : ClientPuzzleManager) (s : Submission) : ErrorCode × ClientPuzzleManager :=
  if s.puzzleDifficulty ≠ m.mCurrentDifficulty then (.invalidPuzzleDifficulty, m)
  else if s.serverNonce ≠ m.mCurrentNonce ∧ s.serverNonce ≠ m.mLastNonce then
    (.invalidServerNonce, m)
  else if !checkOneSolution sha256 s.solution s.clientNonce s.serverNonce s.puzzleDifficulty
      s.clientIdentity then
    (.invalidSolution, m)
  else if s.serverNonce = m.mCurrentNonce then
    let (added, theTable) := m.mCurrentNonceTable.checkAdd s.clientNonce
    (if added then .success else .invalidClientNonce, { m with mCurrentNonceTable := theTable })
  else
    let (added, theTable) := m.mLastNonceTable.checkAdd s.clientNonce
    (if added then .success else .invalidClientNonce, { m with mLastNonceTable := theTable })

inductive Action where
  | tick (currentTime random : U32) (fresh : NonceBytes)
  | checkSolution (s : Submission)

/-- A manager with the server nonces it has used, the newest first, and the pairs of client and
server nonces it has accepted. -/
structure Record where
  manager : ClientPuzzleManager
  issued : List NonceBytes
  accepted : List (NonceBytes × NonceBytes)

namespace Record

def start (current last : NonceBytes) (random₁ random₂ : U32) : Record :=
  ⟨.new current last random₁ random₂, [current, last], []⟩

def step (r : Record) : Action → Option Record
  | .tick currentTime random fresh => some
    { r with
      manager := r.manager.tick currentTime random fresh
      issued := if r.manager.refreshes currentTime then fresh :: r.issued else r.issued }
  | .checkSolution s =>
    let (result, manager) := r.manager.checkSolution sha256 s
    some { r with
      manager
      accepted := if result = .success then (s.clientNonce, s.serverNonce) :: r.accepted
        else r.accepted }

/-- A nonce drawn by a refresh was not drawn before. -/
def FreshNonces (r : Record) : Action → Prop
  | .tick currentTime _ fresh => r.manager.refreshes currentTime → fresh ∉ r.issued
  | .checkSolution _ => True

/-- The tables know every accepted pair whose server nonce can still be used. -/
structure Sound (r : Record) : Prop where
  issued : ∃ older, r.issued = r.manager.mCurrentNonce :: r.manager.mLastNonce :: older
  distinct : r.issued.Nodup
  mem_issued : ∀ p ∈ r.accepted, p.2 ∈ r.issued
  current : ∀ c, (c, r.manager.mCurrentNonce) ∈ r.accepted → r.manager.mCurrentNonceTable.Used c
  last : ∀ c, (c, r.manager.mLastNonce) ∈ r.accepted → r.manager.mLastNonceTable.Used c
  once : r.accepted.Nodup

end Record

variable {sha256} {m : ClientPuzzleManager} {s : Submission}

variable (sha256) in
/-- A solution is accepted only with an unused client nonce for one of the two server nonces, and
the client nonce is used from then on. -/
theorem checkSolution_cases (m : ClientPuzzleManager) (s : Submission) :
    (∃ error, error ≠ .success ∧ ∃ table table', m.checkSolution sha256 s = (error,
      { m with mCurrentNonceTable := table, mLastNonceTable := table' }) ∧
      (∀ n, m.mCurrentNonceTable.Used n → table.Used n) ∧
      ∀ n, m.mLastNonceTable.Used n → table'.Used n) ∨
    (s.serverNonce = m.mCurrentNonce ∧ ¬ m.mCurrentNonceTable.Used s.clientNonce ∧
      m.checkSolution sha256 s = (.success,
        { m with mCurrentNonceTable := (m.mCurrentNonceTable.checkAdd s.clientNonce).2 })) ∨
    (s.serverNonce = m.mLastNonce ∧ s.serverNonce ≠ m.mCurrentNonce ∧
      ¬ m.mLastNonceTable.Used s.clientNonce ∧
      m.checkSolution sha256 s = (.success,
        { m with mLastNonceTable := (m.mLastNonceTable.checkAdd s.clientNonce).2 })) := by
  rw [checkSolution]
  split_ifs with hdiff hserver hsolution hcurrent
  · exact .inl ⟨_, by decide, m.mCurrentNonceTable, m.mLastNonceTable, rfl, fun _ => id, fun _ => id⟩
  · exact .inl ⟨_, by decide, m.mCurrentNonceTable, m.mLastNonceTable, rfl, fun _ => id, fun _ => id⟩
  · exact .inl ⟨_, by decide, m.mCurrentNonceTable, m.mLastNonceTable, rfl, fun _ => id, fun _ => id⟩
  · cases hadd : (m.mCurrentNonceTable.checkAdd s.clientNonce).1 with
    | false =>
      refine .inl ⟨.invalidClientNonce, by decide, (m.mCurrentNonceTable.checkAdd s.clientNonce).2,
        m.mLastNonceTable, ?_, ?_, fun _ => id⟩
      · simp only [hadd]
        rfl
      · exact fun n hn => (m.mCurrentNonceTable.checkAdd_used s.clientNonce n).mpr (.inr hn)
    | true =>
      refine .inr (.inl ⟨hcurrent, (m.mCurrentNonceTable.checkAdd_fst _).mp hadd, ?_⟩)
      simp only [hadd]
      rfl
  · cases hadd : (m.mLastNonceTable.checkAdd s.clientNonce).1 with
    | false =>
      refine .inl ⟨.invalidClientNonce, by decide, m.mCurrentNonceTable,
        (m.mLastNonceTable.checkAdd s.clientNonce).2, ?_, fun _ => id, ?_⟩
      · simp only [hadd]
        rfl
      · exact fun n hn => (m.mLastNonceTable.checkAdd_used s.clientNonce n).mpr (.inr hn)
    | true =>
      refine .inr (.inr ⟨?_, hcurrent, (m.mLastNonceTable.checkAdd_fst _).mp hadd, ?_⟩)
      · by_contra hlast
        exact hserver ⟨hcurrent, hlast⟩
      · simp only [hadd]
        rfl

/-- The nonces and tables after a tick that draws a new nonce. -/
theorem tick_refresh {currentTime : U32} (h : m.refreshes currentTime = true) (random : U32)
    (fresh : NonceBytes) : ∃ time tickTime, m.tick currentTime random fresh =
      ⟨m.mCurrentDifficulty, time, tickTime, fresh, m.mCurrentNonce, .reset random,
        m.mCurrentNonceTable⟩ := by
  by_cases hzero : m.mLastTickTime = 0
  · have hsame : { m with mLastTickTime := currentTime }.refreshes currentTime = true := h
    simp only [tick, if_pos hzero, if_pos hsame]
    exact ⟨_, _, rfl⟩
  · simp only [tick, if_neg hzero, if_pos h]
    exact ⟨_, _, rfl⟩

theorem tick_keep {currentTime : U32} (h : m.refreshes currentTime = false) (random : U32)
    (fresh : NonceBytes) :
    ∃ tickTime, m.tick currentTime random fresh = { m with mLastTickTime := tickTime } := by
  by_cases hzero : m.mLastTickTime = 0
  · have hsame : { m with mLastTickTime := currentTime }.refreshes currentTime = false := h
    simp only [tick, if_pos hzero, hsame]
    exact ⟨_, rfl⟩
  · simp only [tick, if_neg hzero, h]
    exact ⟨_, rfl⟩

namespace Record
variable {r r' : Record}

theorem sound_start {current last : NonceBytes} (h : current ≠ last) (random₁ random₂ : U32) :
    Sound (start current last random₁ random₂) where
  issued := ⟨[], rfl⟩
  distinct := by simpa [start] using h
  mem_issued := by simp [start]
  current := by simp [start]
  last := by simp [start]
  once := List.nodup_nil

theorem Sound.current_ne_last (h : r.Sound) : r.manager.mCurrentNonce ≠ r.manager.mLastNonce := by
  obtain ⟨older, heq⟩ := h.issued
  have hnodup := h.distinct
  rw [heq] at hnodup
  intro hsame
  simp [hsame] at hnodup

theorem Sound.tick (h : r.Sound) {currentTime random : U32} {fresh : NonceBytes}
    (allowed : FreshNonces r (.tick currentTime random fresh))
    (taken : step sha256 r (.tick currentTime random fresh) = some r') : r'.Sound := by
  cases taken
  cases hrefresh : r.manager.refreshes currentTime with
  | false =>
    obtain ⟨tickTime, htick⟩ := tick_keep hrefresh random fresh
    simp only [htick]
    exact ⟨h.issued, h.distinct, h.mem_issued, h.current, h.last, h.once⟩
  | true =>
    have hfresh : fresh ∉ r.issued := allowed hrefresh
    obtain ⟨older, hissued⟩ := h.issued
    obtain ⟨time, tickTime, htick⟩ := tick_refresh hrefresh random fresh
    simp only [htick]
    refine ⟨⟨r.manager.mLastNonce :: older, by rw [hissued]; rfl⟩,
      List.nodup_cons.mpr ⟨hfresh, h.distinct⟩,
      fun p hp => List.mem_cons_of_mem _ (h.mem_issued p hp), ?_, h.current, h.once⟩
    -- nothing was accepted yet for a nonce just drawn
    intro c hc
    exact absurd (h.mem_issued _ hc) hfresh

theorem Sound.checkSolution (h : r.Sound) {s : Submission}
    (taken : step sha256 r (.checkSolution s) = some r') : r'.Sound := by
  have hne := h.current_ne_last
  obtain ⟨older, hissued⟩ := h.issued
  rw [Record.step] at taken
  rcases checkSolution_cases sha256 r.manager s with
    ⟨error, herror, table, table', heq, hused, hused'⟩ | ⟨hserver, hunused, heq⟩ |
    ⟨hserver, -, hunused, heq⟩
  · simp only [heq, if_neg herror] at taken
    obtain rfl := Option.some.inj taken
    exact ⟨h.issued, h.distinct, h.mem_issued, fun c hc => hused c (h.current c hc),
      fun c hc => hused' c (h.last c hc), h.once⟩
  · simp only [heq, if_pos] at taken
    obtain rfl := Option.some.inj taken
    refine ⟨h.issued, h.distinct, ?_, ?_, ?_, ?_⟩
    · rintro p (_ | ⟨_, hp⟩)
      · rw [hserver, hissued]
        exact List.mem_cons_self
      · exact h.mem_issued p hp
    · intro c hc
      rw [NonceTable.checkAdd_used]
      rcases List.mem_cons.mp hc with heq | hc
      · exact .inl (congrArg Prod.fst heq)
      · exact .inr (h.current c hc)
    · intro c hc
      rcases List.mem_cons.mp hc with heq | hc
      · exact absurd ((congrArg Prod.snd heq).trans hserver).symm hne
      · exact h.last c hc
    · refine List.nodup_cons.mpr ⟨fun hmem => hunused ?_, h.once⟩
      rw [hserver] at hmem
      exact h.current _ hmem
  · simp only [heq, if_pos] at taken
    obtain rfl := Option.some.inj taken
    refine ⟨h.issued, h.distinct, ?_, ?_, ?_, ?_⟩
    · rintro p (_ | ⟨_, hp⟩)
      · rw [hserver, hissued]
        exact List.mem_cons_of_mem _ List.mem_cons_self
      · exact h.mem_issued p hp
    · intro c hc
      rcases List.mem_cons.mp hc with heq | hc
      · exact absurd ((congrArg Prod.snd heq).trans hserver) hne
      · exact h.current c hc
    · intro c hc
      rw [NonceTable.checkAdd_used]
      rcases List.mem_cons.mp hc with heq | hc
      · exact .inl (congrArg Prod.fst heq)
      · exact .inr (h.last c hc)
    · refine List.nodup_cons.mpr ⟨fun hmem => hunused ?_, h.once⟩
      rw [hserver] at hmem
      exact h.last _ hmem

theorem Sound.step (h : r.Sound) {a : Action} (allowed : FreshNonces r a)
    (taken : r.step sha256 a = some r') : r'.Sound := by
  cases a with
  | tick => exact h.tick allowed taken
  | checkSolution => exact h.checkSolution taken

/-- In every run a pair of nonces is accepted at most once, and whenever a submission is accepted,
its server nonce is one of the last two issued and the pair was not accepted before. -/
theorem accepted_once {current last : NonceBytes} {random₁ random₂ : U32} {as : List Action}
    (distinct : current ≠ last)
    (run : Run (Record.step sha256) FreshNonces (start current last random₁ random₂) as r) :
    r.accepted.Nodup ∧ ∀ s, (r.manager.checkSolution sha256 s).1 = .success →
      s.serverNonce ∈ r.issued.take 2 ∧ (s.clientNonce, s.serverNonce) ∉ r.accepted := by
  have h : r.Sound := run.invariant (fun _ _ _ hs allowed taken => hs.step allowed taken)
    (sound_start distinct random₁ random₂)
  refine ⟨h.once, fun s hs => ?_⟩
  obtain ⟨older, hissued⟩ := h.issued
  rcases checkSolution_cases sha256 r.manager s with
    ⟨error, herror, table, table', heq, -, -⟩ | ⟨hserver, hunused, -⟩ | ⟨hserver, -, hunused, -⟩
  · rw [heq] at hs
    exact absurd hs herror
  · rw [hissued, hserver]
    exact ⟨List.mem_cons_self, fun hmem => hunused (h.current _ hmem)⟩
  · rw [hissued, hserver]
    exact ⟨List.mem_cons_of_mem _ List.mem_cons_self, fun hmem => hunused (h.last _ hmem)⟩

/-- A submission, a refresh and the same submission again, where every hash is zero. -/
theorem accepted_once_resubmitted :
    ∃ r, Run (Record.step (fun _ _ => 0)) FreshNonces
        (start (.replicate 8 1) (.replicate 8 2) 0 0)
        [.checkSolution ⟨0, .replicate 8 7, .replicate 8 1, 17, 0⟩,
          .tick 30001 5 (.replicate 8 3),
          .checkSolution ⟨0, .replicate 8 7, .replicate 8 1, 17, 0⟩] r ∧
      r.accepted.length = 1 ∧ r.accepted.Nodup := by
  have run : Run (Record.step (fun _ _ => 0)) FreshNonces
      (start (.replicate 8 1) (.replicate 8 2) 0 0)
      [.checkSolution ⟨0, .replicate 8 7, .replicate 8 1, 17, 0⟩,
        .tick 30001 5 (.replicate 8 3),
        .checkSolution ⟨0, .replicate 8 7, .replicate 8 1, 17, 0⟩] _ :=
    .cons trivial rfl (.cons (fun _ => by decide +kernel) rfl (.cons trivial rfl (.nil _)))
  exact ⟨_, run, by decide +kernel, (accepted_once (by decide +kernel) run).1⟩

end Record

end ClientPuzzleManager

end TNL.ClientPuzzle
