import NalTransport.Packet.Buffer
import NalTransport.Proofs.AnnexB.Decomposition
import NalTransport.Proofs.AnnexB.FirstCode
import NalTransport.Proofs.Bounds.Receive
import NalTransport.Proofs.Packet.Buffer
import NalTransport.Proofs.Packet.Canonical
import NalTransport.Proofs.Packet.FailedWrite
import NalTransport.Proofs.Packet.Trailer
import NalTransport.Proofs.Packet.Truncation
import NalTransport.Proofs.Packing.Aggregation
import NalTransport.Proofs.Packing.Delivery
import NalTransport.Proofs.Packing.Fragments
import NalTransport.Proofs.Packing.Greedy
import NalTransport.Proofs.Packing.Optimality
import NalTransport.Proofs.Packing.PayloadSize
import NalTransport.Proofs.Packing.Pending
import NalTransport.Proofs.Payload.Inspection
import NalTransport.Proofs.Payload.WireViews
import NalTransport.Proofs.SendTime.Duration
import NalTransport.Proofs.Stream.AccessUnit
import NalTransport.Proofs.Stream.Frame
import NalTransport.Proofs.Stream.PacketSize
import NalTransport.Proofs.Stream.Pool
import NalTransport.Proofs.Stream.Timestamp
