import TcpHw.Send.TxSequence
import TcpHw.Recv.RxPath
import TcpHw.Recv.RxRing
import TcpHw.Recv.RxDelivery
import TcpHw.Ram
import TcpHw.Send.Fifo2w
import TcpHw.Send.ProtocolLogicPipe
import TcpHw.Send.SendPipe
import TcpHw.Send.RetransmitFlags
import TcpHw.Recv.FsmSystem
import TcpHw.Recv.TcpStateOrder
import TcpHw.Recv.Handshake
import TcpHw.Recv.SynAck
import TcpHw.Recv.RxFront
import TcpHw.Recv.FlowOpening
import TcpHw.Recv.EstPipe
import TcpHw.Recv.EstSerial
import TcpHw.Recv.RxPipe
import TcpHw.Lib.Tokens
import TcpHw.Recv.SlabConservation
import TcpHw.Lib.ReadPort
import TcpHw.Send.PipeStalls
import TcpHw.Recv.FlowidUnique
import TcpHw.Recv.FlowidUse
import TcpHw.Recv.RxRouting
import TcpHw.Common.PacketQueue
import TcpHw.Common.PacketFrames
import TcpHw.Common.PacketSizes
import TcpHw.Common.CircBuf
import TcpHw.Common.WrCircBuf
import TcpHw.Common.CircBufWrite
import TcpHw.Common.CircBufRead
import TcpHw.Common.RdCircBufNew
import TcpHw.Common.CircBufReadNew
import TcpHw.Common.RdCircBuf
import TcpHw.Common.CircBufReadOld
import TcpHw.Frontend.IpPacket
import TcpHw.Frontend.IpStreamFormat
import TcpHw.Frontend.FormatDelivery
import TcpHw.Frontend.IpStreamFormatPipe
import TcpHw.Frontend.PipeDelivery
import TcpHw.Frontend.FormattersAgree
import TcpHw.Recv.RxWindow
import TcpHw.Recv.TxAck
import TcpHw.Send.Segmentation
import TcpHw.Lib.Pool
import TcpHw.Recv.FlowidManager
import TcpHw.Recv.ReinjectFate
import TcpHw.Common.SlabAllocTracker
import TcpHw.Recv.StoreBufCopy
import TcpHw.Frontend.ChksumUnit
import TcpHw.Frontend.ChksumInput
import TcpHw.Frontend.ChksumOutput
import TcpHw.Frontend.UdpStream
import TcpHw.Frontend.UdpRoundTrip
import TcpHw.Frontend.IpAssembler
import TcpHw.Frontend.IpToEthstream
import TcpHw.Frontend.IpRoundTrip
import TcpHw.Frontend.PipeFilter
import TcpHw.Frontend.TcpStream
import TcpHw.Frontend.TcpTxPath
import TcpHw.Frontend.TcpRoundTrip
import TcpHw.Frontend.RxTcpInput
import TcpHw.Frontend.RxTcpOutput
import TcpHw.Frontend.RxTcpPhases
import TcpHw.Frontend.RxTcpSegments
import TcpHw.Frontend.RxTcpCounts
import TcpHw.Frontend.RxTcpBytes
import TcpHw.Frontend.RxTcpFrames
import TcpHw.Frontend.RxTcpUnits
import TcpHw.Frontend.RxTcpWrap
import TcpHw.Frontend.RxTcpReceive
import TcpHw.Frontend.UdpDatagrams
import TcpHw.Frontend.TcpToStream
import TcpHw.Frontend.Serialisers
import TcpHw.Recv.FsmEstArbiter
import TcpHw.Recv.StateArbitration
import TcpHw.Common.AxisFifo
import TcpHw.Frontend.ChksumProgress
import TcpHw.Recv.FlowidCam
import TcpHw.Link.LinkProgress
import TcpHw.Send.HdrAssembler
import TcpHw.Recv.SlabStore
import TcpHw.Recv.AllocatorFifos
import TcpHw.Common.FifoQueue
import TcpHw.Common.PeekFifo
import TcpHw.Frontend.EthFrameFormat
import TcpHw.Frontend.EthFrames
import TcpHw.Frontend.EthFrameMarks
import TcpHw.Frontend.TxPayloadEngine
import TcpHw.Frontend.TxPayloads
import TcpHw.Dram.DramController
import TcpHw.Dram.DramWrites
import TcpHw.Dram.DramMemory
import TcpHw.Common.BsgFifo
import TcpHw.Common.RingFifo
