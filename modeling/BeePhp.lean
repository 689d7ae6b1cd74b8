import BeePhp.Codec.Bytes
import BeePhp.Codec.Proofs.BytesProofs
import BeePhp.Codec.Doc
import BeePhp.Codec.Reader
import BeePhp.Codec.Proofs.DocProofs
import BeePhp.Codec.Proofs.ReaderProofs
import BeePhp.Machine
import BeePhp.Mhash
import BeePhp.Msgpuck
import BeePhp.Murmur
import BeePhp.Proofs.MsgpuckProofs
import BeePhp.Codec.Assoc
import BeePhp.Zend.Value
import BeePhp.Msgpack.Unpack
import BeePhp.Msgpack.Meaning
import BeePhp.Msgpack.Proofs.UnpackProofs
import BeePhp.Msgpack.Proofs.MeaningProofs
import BeePhp.Proofs.MachineProofs
import BeePhp.Proofs.CheckProofs
import BeePhp.Msgpack.Proofs.CheckedProofs
import BeePhp.Msgpack.Pack
import BeePhp.Proofs.SmartStringProofs
import BeePhp.Msgpack.Proofs.PackProofs
import BeePhp.Zend.Proofs.TableProofs
import BeePhp.Msgpack.Reference
import BeePhp.Msgpack.Proofs.ReferenceProofs
import BeePhp.Msgpack.Proofs.RoundTripProofs
import BeePhp.Zend.Built
import BeePhp.Msgpack.Proofs.ListProofs
import BeePhp.Proofs.RequestProofs
import BeePhp.Program.Wlp
import BeePhp.Tp
import BeePhp.Response
import BeePhp.Network
import BeePhp.Recv
import BeePhp.Header
import BeePhp.Proofs.HeaderProofs
import BeePhp.Proofs.NetworkProofs
import BeePhp.Proofs.RecvProofs
import BeePhp.Proofs.PayloadProofs
import BeePhp.Proofs.ResponseProofs
import BeePhp.Connection
import BeePhp.Arguments
import BeePhp.Methods
import BeePhp.Proofs.KeepsProofs
import BeePhp.Proofs.QuietProofs
import BeePhp.Proofs.MethodsProofs
import BeePhp.Proofs.ConnectProofs
import BeePhp.Proofs.SendProofs
import BeePhp.Proofs.IdentityProofs
import BeePhp.Proofs.TpProofs
import BeePhp.Catalogue
import BeePhp.Proofs.WalkProofs
import BeePhp.Tables
import BeePhp.Proofs.TablesProofs
import BeePhp.Proofs.SchemaProofs
import BeePhp.Parsers
import BeePhp.Proofs.ParsersProofs
import BeePhp.Proofs.FramingProofs
import BeePhp.Proofs.SettledProofs
import BeePhp.Authentication
import BeePhp.Proofs.AuthProofs
import BeePhp.Proofs.LoadProofs
import BeePhp.Process
import BeePhp.Proofs.ProcessProofs
import BeePhp.Proofs.TrafficProofs
import BeePhp.Proofs.StreamIdProofs
import BeePhp.Usable
import BeePhp.Proofs.UsableProofs
import BeePhp.Totality
import BeePhp.Proofs.TotalityProofs
import BeePhp.Answered
import BeePhp.Proofs.AnsweredProofs
import BeePhp.Integers
import BeePhp.Proofs.IntegersProofs
import BeePhp.Rows
import BeePhp.Proofs.RowsProofs
import BeePhp.Packet
import BeePhp.Proofs.PacketProofs
import BeePhp.Names
import BeePhp.Proofs.NamesProofs
import BeePhp.Program.Reports
import BeePhp.Failure
import BeePhp.Proofs.FailureProofs
import BeePhp.Flushed
import BeePhp.Maps
import BeePhp.Proofs.FlushedProofs
import BeePhp.Proofs.MapsProofs
import BeePhp.Proofs.OrphanProofs
import BeePhp.Proofs.UpdateOpsProofs
import BeePhp.AuthRequest
import BeePhp.Iterators
import BeePhp.Packing
import BeePhp.Proofs.AuthRequestProofs
import BeePhp.Proofs.IteratorsProofs
import BeePhp.Proofs.PackingProofs
import BeePhp.Proofs.UpdateStoreProofs
import BeePhp.Msgpack.Rewrite
import BeePhp.Msgpack.Proofs.RewriteProofs
import BeePhp.Codec.Blocks
import BeePhp.Codec.Sha
import BeePhp.Sha1
import BeePhp.Proofs.Sha1Proofs
import BeePhp.Codec.Base64
import BeePhp.Codec.Proofs.Base64Proofs
import BeePhp.Base64
import BeePhp.Proofs.Base64Proofs
import BeePhp.Codec.Challenge
import BeePhp.Scramble
import BeePhp.Proofs.ScrambleProofs
import BeePhp.TpRequests
import BeePhp.Proofs.TpRequestsProofs
import BeePhp.Numbered
import BeePhp.Proofs.NumberedProofs
import BeePhp.Handshake
import BeePhp.Proofs.HandshakeProofs
import BeePhp.Progressive
import BeePhp.Proofs.ProgressiveProofs
import BeePhp.TableRuns
import BeePhp.Proofs.TableRunsProofs
import BeePhp.Asked
import BeePhp.Proofs.AskedProofs
import BeePhp.Codec.Heads
import BeePhp.Codec.Proofs.HeadsProofs
import BeePhp.Proofs.AcceptedProofs
import BeePhp.Session
import BeePhp.Proofs.SessionProofs
import BeePhp.Handed
import BeePhp.Proofs.HandedProofs
