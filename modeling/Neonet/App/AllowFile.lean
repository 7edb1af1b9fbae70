import Neonet.App.PairCommand
import Neonet.Node.Gate

/-!
# The allow list of the paired devices

`neonet pairs --as-allow` prints the keys of the devices that were paired, and a node that is
started with this file accepts nobody else.

* `parsePublicKey`, `allowList` : what the command line takes for keys, and the file of a node.
* `asAllow` : what is printed.
* `LedgerInv` : whose keys are kept; `ledgerInv_of_run` : **so it is after every run of the
  pairing.**
* `allowFile_spec` : **the node pumps a connection it accepts only with a device that redeemed a
  token**, and is refused a file if nobody did.
-/

namespace Neonet

open FileTree FsM

section Operations

/-- `parse_public_key`. -/
def parsePublicKey (hex : String) : Except String (ByteArr 32) :=
  match unhex hex.toList with
  | none => .error ("'" ++ hex ++ "' is not valid hex")
  | some bytes =>
    if h : bytes.length = 32 then .ok ⟨bytes, h⟩
    else .error "a public key must be exactly 64 hex characters"

variable (J : Codec (List String)) (L : Codec (List PairedDevice)) (home : Home)

/-- `allow_list`, of a path as it was typed. -/
def allowList (display : String) (path : Option PathBuf) (t : Tree) : Except String AllowList :=
  match path with
  | none => .ok .opened
  | some path =>
    match ((read path : FsM IoError Bytes) t).1 with
    | .error _ => .error ("could not read allow-list file " ++ display)
    | .ok bytes =>
      match J.decode bytes with
      | .error _ => .error (display ++ " is not valid allow-list JSON — expected an array of " ++
          "64-hex public keys, see docs/CLI.md#access-control")
      | .ok [] => .error ("allow-list file " ++ display ++ " is empty — an empty list would " ++
          "accept nobody; add at least one full public key or drop --allow-file for development")
      | .ok (key :: keys) => do
        let identities ← (key :: keys).mapM fun hex => PublicIdentity.mk <$> parsePublicKey hex
        return .only identities

/-- `Command::Pairs`, with `--as-allow`: the keys that are printed. -/
def asAllow (t : Tree) : List String :=
  (pairedDevices home L t).map fun record => hex record.publicKey.toList

end Operations

section Spec

variable (V : AppEnv)

/-- The event is a redemption by `who`. -/
def RedeemedBy (who : PublicIdentity) (e : TokenEvent × List Message) : Prop :=
  ∃ token, Redeems V token who e

/-- The event is a redemption by a device with that fingerprint. -/
def RedeemedAs (fingerprint : String) (e : TokenEvent × List Message) : Prop :=
  ∃ who : PublicIdentity, who.fingerprint V.primitives = fingerprint ∧ RedeemedBy V who e

/-- The key of `x` is in the list, or `x` redeemed a token when no device with its fingerprint was
listed or had redeemed one. -/
def Paired (l : List PairedDevice) (past : List (TokenEvent × List Message)) (x : PublicIdentity) :
    Prop :=
  x.publicKey ∈ l.map (·.publicKey) ∨ x.fingerprint V.primitives ∉ l.map (·.fingerprint) ∧
    First (RedeemedBy V x) (RedeemedAs V (x.fingerprint V.primitives)) past

/-- What is kept of the devices that redeemed a token. -/
structure LedgerInv (l : List PairedDevice) (past : List (TokenEvent × List Message))
    (s : AppState) : Prop where
  keys : ∀ x : PublicIdentity,
    x.publicKey ∈ (pairedOf V s).map (·.publicKey) ↔ Paired V l past x
  fingerprints : ∀ fingerprint, fingerprint ∈ (pairedOf V s).map (·.fingerprint) ↔
    fingerprint ∈ l.map (·.fingerprint) ∨ ∃ e ∈ past, RedeemedAs V fingerprint e

end Spec

variable {V : AppEnv} {J : Codec (List String)} {l : List PairedDevice} {s s' : AppState}
  {past : List (TokenEvent × List Message)} {e : TokenEvent × List Message} {who x : PublicIdentity}
  {token display : String} {path : PathBuf} {t : Tree} {allow : AllowList}

/-! ### Keys in the file -/

theorem unhexDigit_hexDigit : ∀ n < 16, unhexDigit (hexDigit n) = some n := by decide

theorem unhex_flatMap_hexByte (b : Bytes) : unhex (b.flatMap hexByte) = some b := by
  induction b with
  | nil => rfl
  | cons x b ih =>
    have hx := x.toNat_lt
    have hbyte : UInt8.ofNat (16 * (x.toNat / 16) + x.toNat % 16) = x := by
      rw [Nat.div_add_mod, UInt8.ofNat_toNat]
    rw [List.flatMap_cons, hexByte, List.cons_append, List.cons_append, List.nil_append, unhex,
      unhexDigit_hexDigit _ (by omega), unhexDigit_hexDigit _ (by omega), ih]
    simp only [Option.bind_eq_bind, Option.bind_some, hbyte]
    rfl

theorem parsePublicKey_hex (key : ByteArr 32) : parsePublicKey (hex key.toList) = .ok key := by
  rw [parsePublicKey, hex, String.toList_ofList, unhex_flatMap_hexByte]
  exact dif_pos key.2

theorem mapM_parsePublicKey (keys : List (ByteArr 32)) :
    ((keys.map fun key => hex key.toList).mapM fun hex =>
      PublicIdentity.mk <$> parsePublicKey hex) = .ok (keys.map .mk) := by
  induction keys with
  | nil => rfl
  | cons key keys ih =>
    rw [List.map_cons, List.mapM_cons, ih, parsePublicKey_hex]
    rfl

theorem allowList_asAllow {L : Codec (List PairedDevice)} {home : Home} {t' : Tree}
    (h : t'.HasFile path (J.encode (asAllow L home t))) :
    allowList J display (some path) t' =
      if pairLedger L home t = [] then
        .error ("allow-list file " ++ display ++ " is empty — an empty list would " ++
          "accept nobody; add at least one full public key or drop --allow-file for development")
      else .ok (.only ((pairedDevices home L t).map fun record => ⟨record.publicKey⟩)) := by
  have hread : ((read path : FsM IoError Bytes) t').1 = .ok (J.encode (asAllow L home t)) := by
    rw [read_of_hasFile h]
  have hperm : (pairedDevices home L t).Perm (pairLedger L home t) := List.perm_insertionSort _ _
  have hkeys : asAllow L home t =
      ((pairedDevices home L t).map (·.publicKey)).map fun key => hex key.toList := by
    rw [List.map_map]
    rfl
  simp only [allowList, hread, J.decode_encode]
  cases hlist : asAllow L home t with
  | nil =>
    have hnone : pairLedger L home t = [] := by
      rw [hkeys, List.map_map, List.map_eq_nil_iff] at hlist
      exact List.perm_nil.1 (hlist ▸ hperm.symm)
    rw [if_pos hnone]
  | cons key keys =>
    have hsome : pairLedger L home t ≠ [] := fun hnone => by
      rw [hnone] at hperm
      rw [hkeys, List.perm_nil.1 hperm] at hlist
      cases hlist
    have hparse := mapM_parsePublicKey ((pairedDevices home L t).map (·.publicKey))
    rw [← hkeys, hlist] at hparse
    dsimp only
    rw [if_neg hsome, hparse, List.map_map]
    rfl

/-! ### Whose keys are kept -/

/-- A device is paired after one event more if it was before, or if it redeemed its token now and
nobody else stood in its way. -/
theorem paired_concat : Paired V l (past ++ [e]) x ↔ Paired V l past x ∨
    RedeemedBy V x e ∧ x.fingerprint V.primitives ∉ l.map (·.fingerprint) ∧
      ∀ e' ∈ past, ¬ RedeemedAs V (x.fingerprint V.primitives) e' := by
  rw [Paired, Paired, first_concat]
  tauto

theorem mem_enrolled_fingerprints {K : Primitives} {now : UInt64} {fingerprint : String} :
    fingerprint ∈ (enrolled K now x l).map (·.fingerprint) ↔
      fingerprint ∈ l.map (·.fingerprint) ∨ x.fingerprint K = fingerprint := by
  by_cases hx : x.fingerprint K ∈ l.map (·.fingerprint)
  · rw [enrolled_of_mem hx]
    exact (or_iff_left_of_imp fun heq => heq ▸ hx).symm
  · rw [enrolled_of_not_mem hx, List.map_append, List.mem_append, List.map_singleton,
      List.mem_singleton]
    exact or_congr_right eq_comm

theorem mem_enrolled_keys {K : Primitives} {now : UInt64} :
    who.publicKey ∈ (enrolled K now x l).map (·.publicKey) ↔
      who.publicKey ∈ l.map (·.publicKey) ∨ x = who ∧ x.fingerprint K ∉ l.map (·.fingerprint) := by
  have hkey : who.publicKey = x.publicKey ↔ x = who := by
    cases who
    cases x
    rw [PublicIdentity.mk.injEq, eq_comm]
  by_cases hx : x.fingerprint K ∈ l.map (·.fingerprint)
  · rw [enrolled_of_mem hx]
    exact (or_iff_left fun h => h.2 hx).symm
  · rw [enrolled_of_not_mem hx, List.map_append, List.mem_append, List.map_singleton,
      List.mem_singleton, hkey, and_iff_left hx]

theorem LedgerInv.of_listed (h : LedgerInv V l past s) (hlisted : pairedOf V s' = pairedOf V s)
    (hnobody : ∀ token who, ¬ Redeems V token who e) : LedgerInv V l (past ++ [e]) s' := by
  have hnot : ∀ fingerprint, ¬ RedeemedAs V fingerprint e := by
    rintro _ ⟨who, -, token, hredeems⟩
    exact hnobody token who hredeems
  refine ⟨fun x => ?_, fun fingerprint => ?_⟩
  · rw [hlisted, h.keys, paired_concat]
    exact (or_iff_left fun hx => hnobody _ _ hx.1.choose_spec).symm
  · rw [hlisted, h.fingerprints]
    simp [hnot]

/-- **One event** of the pairing. -/
theorem LedgerInv.step {a : TokenEvent} {r : List Message × AppState} (h : LedgerInv V l past s)
    (hstep : TokenStep V s a r) : LedgerInv V l (past ++ [(a, r.1)]) r.2 := by
  cases hstep with
  | issued pending listed => exact h.of_listed listed fun _ _ => id
  | other nobody disk =>
    exact h.of_listed (congrArg (pairLedger V.ledger V.home) disk) nobody
  | @redeemed d request sent s' p redeems pending unused inTime spent listed =>
    have hwho : ∀ {x}, RedeemedBy V x (.arrived d request, sent) ↔ request.sender = x :=
      ⟨fun ⟨_, hx⟩ => hx.1, fun heq => ⟨p.token, heq ▸ redeems⟩⟩
    refine ⟨fun x => ?_, fun fingerprint => ?_⟩
    · rw [listed, mem_enrolled_keys, h.keys, paired_concat, hwho, h.fingerprints]
      refine or_congr_right (and_congr_right fun heq => ?_)
      rw [heq]
      simp
    · rw [listed, mem_enrolled_fingerprints, h.fingerprints]
      simp [RedeemedAs, hwho, or_assoc]

/-- So it is after every run. -/
theorem ledgerInv_of_run (hV : V.Postcard) {s₀ : AppState} {events : List TokenEvent}
    (hpair : ∀ e ∈ events, e.OfPairing V)
    (hsave : (tokenRun V).Along (TokenEvent.Saves V) s₀ events) :
    LedgerInv V (pairedOf V s₀) ((tokenRun V).transcript s₀ events)
      ((tokenRun V).after s₀ events) := by
  refine Machine.Along.history (I := LedgerInv V (pairedOf V s₀)) (hsave.and_forall hpair)
    ⟨fun x => ?_, fun fingerprint => by simp⟩
    fun past s a ha h => h.step (tokenStep hV ha.2 ha.1)
  exact (or_iff_left fun hx => not_first_nil hx.2).symm

/-- **The file of the paired devices** lets in who redeemed a token, and is refused if nobody
did. -/
theorem allowFile_spec (hV : V.Postcard) {s₀ : AppState} {events : List TokenEvent}
    (hpair : ∀ e ∈ events, e.OfPairing V)
    (hsave : (tokenRun V).Along (TokenEvent.Saves V) s₀ events)
    (hfile : t.HasFile path
      (J.encode (asAllow V.ledger V.home ((tokenRun V).after s₀ events).disk))) :
    ((∃ allow, allowList J display (some path) t = .ok allow) ↔
        ∃ x, Paired V (pairedOf V s₀) ((tokenRun V).transcript s₀ events) x) ∧
      ∀ allow, allowList J display (some path) t = .ok allow →
        (∀ x, allow.permits x = true ↔
          Paired V (pairedOf V s₀) ((tokenRun V).transcript s₀ events) x) ∧
        ∀ C parties w, (world V.primitives C parties).Reachable w → ∀ me σ x,
          Opened V.primitives w me (.accepted allow) σ x →
            Paired V (pairedOf V s₀) ((tokenRun V).transcript s₀ events) x := by
  have hinv : LedgerInv V (pairedOf V s₀) ((tokenRun V).transcript s₀ events)
      ((tokenRun V).after s₀ events) := ledgerInv_of_run hV hpair hsave
  generalize (tokenRun V).after s₀ events = s at hinv hfile
  generalize (tokenRun V).transcript s₀ events = past at hinv ⊢
  have hperm : (pairedDevices V.home V.ledger s.disk).Perm (pairedOf V s) :=
    List.perm_insertionSort _ _
  have hpermits : ∀ x : PublicIdentity, (AllowList.only ((pairedDevices V.home V.ledger s.disk).map
      fun record => ⟨record.publicKey⟩)).permits x = true ↔ Paired V (pairedOf V s₀) past x :=
    fun x => by
      rw [← hinv.keys, ← (hperm.map _).mem_iff]
      obtain ⟨key⟩ := x
      simp [AllowList.permits, AllowList.only]
  rw [allowList_asAllow hfile]
  by_cases hnone : pairLedger V.ledger V.home s.disk = []
  · have hnobody : ∀ x, ¬ Paired V (pairedOf V s₀) past x := fun x hx => by
      have hkey := (hinv.keys x).2 hx
      rw [pairedOf, hnone] at hkey
      cases hkey
    rw [if_pos hnone]
    refine ⟨iff_of_false ?_ (not_exists.2 hnobody), fun allow h => by cases h⟩
    rintro ⟨allow, h⟩
    cases h
  · obtain ⟨record, hrecord⟩ := List.exists_mem_of_ne_nil _ hnone
    rw [if_neg hnone]
    have hpaired := (hinv.keys ⟨record.publicKey⟩).1 (List.mem_map_of_mem hrecord)
    refine ⟨iff_of_true ⟨_, rfl⟩ ⟨_, hpaired⟩, fun allow h => ?_⟩
    obtain rfl := Except.ok.inj h
    exact ⟨hpermits, fun C parties w hw me σ x hopened => (hpermits x).1 (hopened.trusted hw)⟩

namespace Photo

/-- The token is issued, and the visitor redeems it. -/
def pairing : List TokenEvent := [.issued tokenBytes none 0, .arrived drawn redeeming]

/-- Lists of keys in a file. -/
def keyCodec : Codec (List String) := (Wire.seq Wire.string).toCodec

/-- What is printed after that, in a file. -/
def allowDisk : Tree :=
  let t := ((tokenRun env).after settled pairing).disk
  ((write ["allow.json"] (keyCodec.encode (asAllow env.ledger env.home t)) : FsM IoError Unit) t).2

theorem saves_pairing : (tokenRun env).Along (TokenEvent.Saves env) settled pairing := by
  have hissue : (issueToken env.token env.home tokenBytes none 0 settled.disk).1 =
      .ok (hex tokenBytes.toList) := by decide +kernel
  refine ⟨hissue, fun token h => ?_, trivial⟩
  cases h.symm.trans (decode_sentBy visitor _)
  exact ⟨true, by decide +kernel, fun _ => by decide +kernel⟩

theorem paired_visitor : Paired env (pairedOf env settled)
    ((tokenRun env).transcript settled pairing) (visitor.pub env.primitives) := by
  have hredeems : Redeems env (hex tokenBytes.toList) (visitor.pub env.primitives)
      (.arrived drawn redeeming, ((tokenRun env).step
        ((tokenRun env).after settled [.issued tokenBytes none 0]) (.arrived drawn redeeming)).1) :=
    ⟨rfl, decode_sentBy visitor _, by decide +kernel⟩
  refine .inr ⟨by decide +kernel, [(.issued tokenBytes none 0, [])], _, [], rfl, ⟨_, hredeems⟩, ?_⟩
  rintro b hb ⟨who, -, token, hissued⟩
  rw [List.mem_singleton.1 hb] at hissued
  exact hissued

end Photo

open Photo in
/-- The visitor is let in. -/
theorem allowFile_spec_visitor : ∃ allow,
    allowList keyCodec "allow.json" (some ["allow.json"]) allowDisk = .ok allow ∧
      allow.permits (visitor.pub env.primitives) = true := by
  have hpair : ∀ e ∈ pairing, e.OfPairing env := by
    refine List.forall_mem_cons.2 ⟨trivial, List.forall_mem_singleton.2 ?_⟩
    exact ⟨_, decode_sentBy visitor _⟩
  have hfile : allowDisk.HasFile ["allow.json"] (keyCodec.encode
      (asAllow env.ledger env.home ((tokenRun env).after settled pairing).disk)) :=
    Tree.content_eq_some.1 (by decide +kernel)
  obtain ⟨allow, hallow⟩ : ∃ allow,
      allowList keyCodec "allow.json" (some ["allow.json"]) allowDisk = .ok allow :=
    (allowFile_spec ⟨rfl, rfl⟩ hpair saves_pairing hfile).1.2 ⟨_, paired_visitor⟩
  have hpermits := ((allowFile_spec ⟨rfl, rfl⟩ hpair saves_pairing hfile).2 allow hallow).1
  exact ⟨allow, hallow, (hpermits _).2 paired_visitor⟩

end Neonet
