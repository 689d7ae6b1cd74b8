import Mathlib.Data.List.Permutation
import BeePhp.AuthRequest
import BeePhp.Proofs.ResponseProofs
import BeePhp.Proofs.TpProofs

/-!
# Proofs: the request that authenticates

The flag `nopass` is the wrong way round. With a scramble the frame has an empty tuple
(`phpTpEncodeAuth_some`), which is not the one it is to have (`not_authEncodes_some`); without one the
encoder copies twenty bytes from a null pointer (`phpTpEncodeAuth_none`). So the frame is never the one
of the request (`phpTpEncodeAuth_never`). `tp_auth` does send that request (`authBody_says`).
-/

namespace BeePhp

open Codec

/-! ## Without a scramble -/

/-- Without a scramble the encoder does not return. -/
theorem phpTpEncodeAuth_none (ndebug : Bool) (str str' : SmartString) (sync : UInt32)
    (username : Bytes) : phpTpEncodeAuth ndebug str sync username none ≠ .ok str' := by
  intro hrun
  simp only [phpTpEncodeAuth, except_bind_eq_ok] at hrun
  obtain ⟨size, -, str₁, -, str₂, -, str₃, -, str₄, -, str₅, -, str₆, -, hrun⟩ := hrun
  obtain ⟨str₇, -, hnull⟩ := except_bind_eq_ok.mp hrun
  -- the scramble itself is packed last
  simp [phpMpPackStringAt] at hnull

/-! ## With a scramble -/

theorem emptyAuthBody_encode (username : Bytes) : (emptyAuthBody username).encode =
    (SeqWidth.forNat 2).mapHead 2 ++ ((Doc.ofNat beexUsername.toNat).encode ++
      ((Doc.ofStr username).encode ++ ((Doc.ofNat beexTuple.toNat).encode ++
        (SeqWidth.forNat 0).arrayHead 0))) := by
  simp [emptyAuthBody, Doc.ofPairs, Doc.ofList, Doc.encode, flatten, encodeAll]

theorem emptyAuthBody_wf {username : Bytes} (h : username.length + 5 < 2 ^ 32) :
    (emptyAuthBody username).WF := by
  refine Doc.ofPairs_wf (by simp) fun p hp => ?_
  obtain rfl | rfl : p = _ ∨ p = _ := by simpa using hp
  · exact ⟨uint32_doc_wf _, Doc.ofStr_wf (by omega)⟩
  · exact ⟨uint32_doc_wf _, Doc.ofList_wf (by simp) (by simp)⟩

theorem phpTpSizeofAuth_eq (ndebug : Bool) (sync : UInt32) {username : Bytes}
    (h : username.length + 5 < 2 ^ 32) : phpTpSizeofAuth ndebug sync username.length true =
      .ok ((headerDoc beexAuth sync).encode ++ (emptyAuthBody username).encode).length := by
  have harray : phpMpSizeofArray 0 = ((SeqWidth.forNat 0).arrayHead 0).length := rfl
  simp only [phpTpSizeofAuth, phpTpSizeofHeader_eq, sizeofUint32_eq, phpMpSizeofString_eq h,
    phpMpSizeofHash_eq (show 2 < 2 ^ 32 by decide), bind, Except.bind, pure, Except.pure, if_true,
    not_true_eq_false, if_false, harray, emptyAuthBody_encode, List.length_append, Nat.add_assoc]

/-- With a scramble the encoder appends a frame with an empty tuple. -/
theorem phpTpEncodeAuth_some (ndebug : Bool) (str : SmartString) (sync : UInt32) {username : Bytes}
    (scramble : Bytes) (h : username.length + 5 < 2 ^ 32) :
    ∃ str', phpTpEncodeAuth ndebug str sync username (some scramble) = .ok str' ∧
      str'.data = str.data ++ 0xce :: toBE 4
        (toUint32 ((headerDoc beexAuth sync).encode ++ (emptyAuthBody username).encode).length) ++
        ((headerDoc beexAuth sync).encode ++ (emptyAuthBody username).encode) := by
  have hsize := phpTpSizeofAuth_eq ndebug sync h
  generalize ((headerDoc beexAuth sync).encode ++ (emptyAuthBody username).encode).length = size at *
  obtain ⟨str₁, h₁, hdata₁⟩ := phpTpPackHeader_spec ndebug (str.ensure (size + 5)) size beexAuth sync
  obtain ⟨str₂, h₂, hdata₂⟩ := phpMpPackHash_spec str₁ (show 2 < 2 ^ 32 by decide)
  obtain ⟨str₃, h₃, hdata₃⟩ := packUint32_appends ndebug beexUsername str₂
  obtain ⟨str₄, h₄, hdata₄⟩ := phpMpPackString_appends h str₃
  obtain ⟨str₅, h₅, hdata₅⟩ := packUint32_appends ndebug beexTuple str₄
  obtain ⟨str₆, h₆, hdata₆⟩ := phpMpPackArray_spec str₅ (show 0 < 2 ^ 32 by decide)
  refine ⟨str₆, ?_, ?_⟩
  · simp only [phpTpEncodeAuth, Option.isSome_some, hsize, h₁, h₂, h₃, h₄, h₅, bind, Except.bind,
      if_true, h₆, not_true_eq_false, if_false]
    rfl
  · rw [hdata₆, hdata₅, hdata₄, hdata₃, hdata₂, hdata₁, (str.ensure_spec _).2.1,
      emptyAuthBody_encode]
    simp only [List.append_assoc]

/-! ## What the frame would have to say -/

/-- A string has a byte before it. -/
theorem str_length_lt (w : StrWidth) (s : Bytes) : s.length < (Doc.str w s).encode.length := by
  cases w <;> simp [Doc.encode, Doc.head, StrWidth.head]

/-- A payload in which the name of the user stands leaves room for the length of the name. -/
theorem AuthBody.small {username : Bytes} {scramble : Option Bytes} {header body : Doc}
    (h : AuthBody username scramble body)
    (hlt : (header.encode ++ body.encode).length < 2 ^ 32) : username.length + 5 < 2 ^ 32 := by
  obtain ⟨wu, wn, wt, wa, ts, ⟨w, ps, rfl, hperm⟩, -⟩ := h
  have hheader := header.encode_length_pos
  have hname := str_length_lt wn username
  have hhead := (Doc.map w (flatten ps)).head_length_pos
  have huser := (Doc.uint wu beexUsername.toNat).encode_length_pos
  have htuple := (Doc.uint wt beexTuple.toNat).encode_length_pos
  have harray := (Doc.array wa ts).encode_length_pos
  rw [List.length_append, Doc.encode_eq (.map w _), List.length_append] at hlt
  obtain rfl | rfl := List.perm_pair.mp hperm
  · simp only [flatten, Doc.items, encodeAll, List.length_append] at hlt hhead
    omega
  · simp only [flatten, Doc.items, encodeAll, List.length_append] at hlt hhead
    omega

/-- What the body that is sent stands for. -/
theorem emptyAuthBody_toPhp (username : Bytes) : docToPhp true (emptyAuthBody username) =
    .ok (.arr [(.idx 0x23, .str username), (.idx 0x21, .arr [] 0)] 0x24) := rfl

/-- What stands for the tuple in a body is found under its key. -/
theorem mapOf_tuple {wu wt : IntWidth} {name tuple body : Doc}
    (h : MapOf [(.uint wu beexUsername.toNat, name), (.uint wt beexTuple.toNat, tuple)] body)
    {entries : List (Key × PVal)} {next : UInt64}
    (hphp : docToPhp true body = .ok (.arr entries next)) :
    ∃ value, docToPhp true tuple = .ok value ∧ entries.lookup (.idx 0x21) = some value := by
  obtain ⟨w, ps, rfl, hperm⟩ := h
  obtain ⟨t, hrun, ht⟩ := header_toPhp hphp
  have hint : IntegerKeys ps := by
    intro p hp
    obtain rfl | rfl : p = _ ∨ p = _ := by simpa using hperm.mem_iff.mp hp
    · exact ⟨_, rfl, by decide, by decide⟩
    · exact ⟨_, rfl, by decide, by decide⟩
  have hnodup : (ps.map fun p => integerOf p.1).Nodup :=
    (hperm.map _).nodup_iff.mpr (by simp [integerOf, beexUsername, beexTuple])
  have hmem : (Doc.uint wt beexTuple.toNat, tuple) ∈ ps := hperm.mem_iff.mpr (by simp)
  obtain ⟨value, hvalue, hlookup⟩ := lookup_pairs_some hint hnodup hmem (h := beexTuple) rfl hrun
  cases ht
  exact ⟨value, hvalue, hlookup⟩

/-- A tuple with a scramble does not stand for an empty array. -/
theorem AuthTuple.not_empty {scramble : Bytes} {ts : List Doc} (h : AuthTuple (some scramble) ts)
    (wa : SeqWidth) : docToPhp true (.array wa ts) ≠ .ok (.arr [] 0) := by
  obtain ⟨method, w, rfl⟩ := h
  intro hphp
  simp only [docToPhp, itemsToPhp, except_bind_eq_ok] at hphp
  obtain ⟨t, ⟨v, -, s, hs, ht⟩, hempty⟩ := hphp
  cases hs
  cases ht
  have hnext : nextFree 0 0 = 1 := by decide
  simp [Table.toPVal, addNextIndexZval, addIndexZval, Table.empty, enter, hnext, pure,
    Except.pure] at hempty

/-- With a scramble the frame is not that of an authentication. -/
theorem not_authEncodes_some (ndebug : Bool) (str : SmartString) (sync : UInt32) (username : Bytes)
    (scramble : Bytes) : ¬ AuthEncodes ndebug str sync username (some scramble) := by
  rintro ⟨str', bytes, hrun, hdata, header, body, hheader, hbody, -, hsays, hlt, rfl⟩
  have hsmall := hsays.small hlt
  obtain ⟨str'', hrun', hdata'⟩ := phpTpEncodeAuth_some ndebug str sync scramble hsmall
  cases hrun.symm.trans hrun'
  -- so the payload that was sent would be the one that says it
  have hframe := List.append_cancel_left (hdata.symm.trans (hdata'.trans (List.append_assoc _ _ _)))
  have hpayload : header.encode ++ body.encode =
      (headerDoc beexAuth sync).encode ++ (emptyAuthBody username).encode :=
    (List.append_inj hframe (by simp)).2
  obtain ⟨t, hsent, -⟩ := headerDoc_toPhp beexAuth sync
  have hsame := rest_unique (headerDoc_wf beexAuth sync) hheader hsent hpayload.symm
  have hphp : docToPhp true body =
      .ok (.arr [(.idx 0x23, .str username), (.idx 0x21, .arr [] 0)] 0x24) := by
    refine ((@phpMpUnpack_doc true body hbody [] [] _).mp ?_).1
    rw [← hsame]
    exact (phpMpUnpack_doc (emptyAuthBody_wf hsmall)).mpr ⟨emptyAuthBody_toPhp username, rfl⟩
  obtain ⟨wu, wn, wt, wa, ts, hmap, htuple⟩ := hsays
  obtain ⟨value, hvalue, hlookup⟩ := mapOf_tuple hmap hphp
  cases hlookup
  exact htuple.not_empty wa hvalue

/-! ## The encoder -/

/-- The frame that is appended is never the one of the authentication. -/
theorem phpTpEncodeAuth_never (ndebug : Bool) (str : SmartString) (sync : UInt32) (username : Bytes)
    (scramble : Option Bytes) : ¬ AuthEncodes ndebug str sync username scramble := by
  cases scramble with
  | some scramble => exact not_authEncodes_some ndebug str sync username scramble
  | none =>
    rintro ⟨str', -, hrun, -⟩
    exact phpTpEncodeAuth_none ndebug str str' sync username hrun

/-- The user "admin" with a scramble of twenty ones. -/
theorem phpTpEncodeAuth_admin : ¬ AuthEncodes true (.null fun _ => 0) 1 (ascii "admin")
    (some (List.replicate phpScrambleSize 1)) :=
  not_authEncodes_some true (.null fun _ => 0) 1 (ascii "admin") (List.replicate phpScrambleSize 1)

/-! ## The encoder of tp.h -/

/-- The tuple of `tp_auth`: no name of a method, and the scramble. -/
def tpAuthTuple (scramble : Option Bytes) : List Doc :=
  match scramble with
  | some s => [.ofStr [], .ofStr s]
  | none => []

theorem authTuple_tp (scramble : Option Bytes) : AuthTuple scramble (tpAuthTuple scramble) := by
  cases scramble with
  | some s => exact ⟨.ofStr [], _, rfl⟩
  | none => exact rfl

/-- The body of `tp_auth` is that of an authentication. -/
theorem authBody_says {scramble : Bytes → Bytes → Bytes} {salt user : Bytes} (pass : Option Bytes)
    (hscramble : ∀ pass, (scramble salt pass).length = scrambleSize) (huser : user.length < 2 ^ 31) :
    ∃ body : Doc, body.WF ∧ body.encode = authBody scramble salt user pass ∧
      AuthBody user (pass.map (scramble salt)) body := by
  have husername : mpEncodeStr user (toUint32 user.length) = (Doc.ofStr user).encode := by
    rw [toUint32_eq (by omega), mpEncodeStr_eq]
  have htuple : ∀ d ∈ tpAuthTuple (pass.map (scramble salt)), d.WF := by
    cases pass with
    | none => simp [tpAuthTuple]
    | some pass =>
      intro d hd
      obtain rfl | rfl : d = _ ∨ d = _ := by simpa [tpAuthTuple] using hd
      · exact Doc.ofStr_wf (by simp)
      · exact Doc.ofStr_wf (by simp [hscramble, scrambleSize])
  have hlength : (tpAuthTuple (pass.map (scramble salt))).length < 256 ^ 4 := by
    cases pass <;> simp [tpAuthTuple]
  refine ⟨.ofPairs [(.ofNat tpUsername, .ofStr user),
    (.ofNat tpTuple, .ofList (tpAuthTuple (pass.map (scramble salt))))], ?_, ?_,
    ⟨_, _, _, _, _, ⟨_, _, rfl, .refl _⟩, authTuple_tp _⟩⟩
  · refine Doc.ofPairs_wf (by simp) fun p hp => ?_
    obtain rfl | rfl : p = _ ∨ p = _ := by simpa using hp
    · exact ⟨Doc.ofNat_wf (by decide), Doc.ofStr_wf (by omega)⟩
    · exact ⟨Doc.ofNat_wf (by decide), Doc.ofList_wf hlength htuple⟩
  · cases pass with
    | none =>
      simp [authBody, tpAuthTuple, Doc.ofPairs, Doc.ofList, Doc.encode, flatten, encodeAll,
        husername, mpEncodeMap_eq, mpEncodeUint_eq, mpEncodeArray_eq]
    | some pass =>
      have hmethod : mpEncodeStr [] 0 = (Doc.ofStr []).encode := mpEncodeStr_eq []
      have hpass : mpEncodeStr (scramble salt pass) scrambleSize =
          (Doc.ofStr (scramble salt pass)).encode := by
        rw [← hscramble pass, mpEncodeStr_eq]
      simp [authBody, tpAuthTuple, Doc.ofPairs, Doc.ofList, Doc.encode, flatten, encodeAll,
        husername, mpEncodeMap_eq, mpEncodeUint_eq, mpEncodeArray_eq, hmethod, hpass]

end BeePhp
