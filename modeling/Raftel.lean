import Raftel.Types
import Raftel.Text
import Raftel.Message
import Raftel.Lib.Codec
import Raftel.Wire
import Raftel.Equiv.Wire
import Raftel.Enclave.Share
import Raftel.Enclave.Comb
import Raftel.TrustedComb
import Raftel.Checker
import Raftel.Enclave.Families
import Raftel.Enclave.Structs
import Raftel.Log
import Raftel.Enclave.Accum
import Raftel.Enclave.Free
import Raftel.Enclave.Interface
import Raftel.Equiv.Text
import Raftel.Equiv.Share
import Raftel.Equiv.Comb
import Raftel.Equiv.TrustedComb
import Raftel.Lib.Fields
import Raftel.Safety.SignedTexts
import Raftel.Lib.Trace
import Raftel.Lib.Voting
import Raftel.Component
import Raftel.Equiv.SameChecker
import Raftel.Safety.PhaseChain
import Raftel.Safety.StateDiscipline
import Raftel.Safety.Equivocation
import Raftel.Safety.Configuration
import Raftel.Signature
import Raftel.Safety.Authenticity
import Raftel.KVApp
import Raftel.Safety.Execution
import Raftel.Lib.Hoare
import Raftel.Handler
import Raftel.Handler.Comb
import Raftel.Equiv.Log
import Raftel.Equiv.Accum
import Raftel.Safety.LeaderAccum
import Raftel.Equiv.Steps
import Raftel.Equiv.Triples
import Raftel.Equiv.Runs
import Raftel.Equiv.Handler
import Raftel.Safety.VoteLogs
import Raftel.System
import Raftel.Network
import Raftel.Lib.Quorum
import Raftel.Protocol
import Raftel.Equiv.System
import Raftel.Safety.OneVote
import Raftel.Safety.ExecutedOnce
import Raftel.Safety.InStep
import Raftel.Safety.Certificates
import Raftel.Safety.FastPath
import Raftel.Safety.Parents
import Raftel.Safety.Discipline
import Raftel.Safety.Agreement
import Raftel.Safety.LeaderPhase
import Raftel.Safety.LeaderAgreement
import Raftel.Safety.LeaderLookup
import Raftel.Safety.GapFree
import Raftel.Lib.Checked
import Raftel.Reads
import Raftel.Equiv.Reads
import Raftel.Handler.CheckedComb
import Raftel.Equiv.CheckedComb
import Raftel.TrustedFun
import Raftel.HotStuff
import Raftel.Handler.HotStuff
import Raftel.HotStuffRuns
import Raftel.Equiv.HotStuff
import Raftel.Equiv.HotStuffEvents
import Raftel.Equiv.HotStuffLog
import Raftel.Safety.InRange
import Raftel.Safety.HotStuffVotes
import Raftel.Safety.HotStuffAgreement
import Raftel.Lib.Memo
import Raftel.Safety.ExactlyOnce
import Raftel.Safety.ClientIsolation
import Raftel.Equiv.KVApp
import Raftel.Reply
import Raftel.Safety.ReadYourWrite
import Raftel.Client
import Raftel.Safety.ReplyQuorum
import Raftel.TrustedChComb
import Raftel.Enclave.ChainedStructs
import Raftel.Handler.ChComb
import Raftel.Safety.ChainedChecker
import Raftel.Safety.ChainedCertificates
import Raftel.Safety.ChainedQuorum
import Raftel.Safety.HotStuffQuorums
import Raftel.Equiv.AccumSpec
import Raftel.Safety.FailedProposal
import Raftel.Safety.LeaderQuorum
import Raftel.Lib.Lockstep
import Raftel.Equiv.Waiting
import Raftel.Safety.CatchUp
import Raftel.Safety.BadVote
import Raftel.Chained
import Raftel.Handler.Chained
import Raftel.Lib.Descent
import Raftel.Equiv.Chained
import Raftel.Safety.ChainedMarks
import Raftel.Safety.ChainedBlocks
import Raftel.Safety.ChainedExecution
import Raftel.Safety.LockDiscipline
import Raftel.Safety.BlockIds
import Raftel.Safety.ChainedWalk
import Raftel.Safety.RejectedProposal
import Raftel.Safety.Censorship
import Raftel.Damysus
import Raftel.Handler.Damysus
import Raftel.DamysusRuns
import Raftel.Equiv.Damysus
import Raftel.Equiv.DamysusTriples
import Raftel.Equiv.DamysusSystem
import Raftel.Safety.DamysusCertificates
import Raftel.Safety.DamysusGenesis
import Raftel.Salticidae
import Raftel.PeerNet
import Raftel.Equiv.Salticidae
import Raftel.Equiv.PeerNet
import Raftel.Safety.Delivery
import Raftel.Reconnect
import Raftel.Safety.Reconnect
import Raftel.Equiv.DamysusNormal
import Raftel.Safety.DamysusProgress
