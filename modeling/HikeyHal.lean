import HikeyHal.Ublox.ReaderLoop
import HikeyHal.Ublox.UbxFrame
import HikeyHal.Ublox.AidingDb
import HikeyHal.Ublox.AidingStore
import HikeyHal.Lib.Staged
import HikeyHal.Ublox.AidingFile
import HikeyHal.Ublox.AidingSession
import HikeyHal.Ublox.AgedTimes
import HikeyHal.Lib.Offsets
import HikeyHal.Ublox.DataVar
import HikeyHal.Ublox.Database
import HikeyHal.Ublox.NmeaItems
import HikeyHal.Ublox.NmeaHandlers
import HikeyHal.Ublox.UbxHandlers
import HikeyHal.Lib.Batches
import HikeyHal.Ublox.TimeTags
import HikeyHal.Ublox.Epochs
import HikeyHal.Ublox.FixState
import HikeyHal.Ublox.Satellites
import HikeyHal.Ublox.LocalDb
import HikeyHal.Ublox.SvLoops
import HikeyHal.Ublox.SvCounts
import HikeyHal.Lib.Stuffing
import HikeyHal.Radio.HdLink
import HikeyHal.Bluetooth.H4
import HikeyHal.Lib.Delayed
import HikeyHal.Ublox.EngineClients
import HikeyHal.Ublox.Publishing
import HikeyHal.Ublox.EngineStatus
import HikeyHal.Gralloc.Reference
import HikeyHal.Ublox.AgpsDownload
import HikeyHal.Gps.LineFraming
import HikeyHal.Gps.NmeaReader
import HikeyHal.Gps.Position
import HikeyHal.Gps.SvStatus
import HikeyHal.Radio.TunerStep
import HikeyHal.Gralloc.Lifecycle
import HikeyHal.Gralloc.Framebuffer
import HikeyHal.Audio.ScoThread
import HikeyHal.Gralloc.StrideBounds
import HikeyHal.Gralloc.PlaneLayout
import HikeyHal.Gralloc.Allocate
import HikeyHal.Ublox.FrameMatcher
import HikeyHal.Ublox.NmeaChecksum
import HikeyHal.Power.TouchBoost
import HikeyHal.Supl.Handler
import HikeyHal.Supl.SessionTable
import HikeyHal.Supl.Manager
import HikeyHal.Supl.HandlerFrame
import HikeyHal.Supl.LiveSessions
import HikeyHal.Supl.Deadlines
import HikeyHal.Supl.Positions
import HikeyHal.Supl.Authentication
import HikeyHal.Supl.NiLifeCycle
import HikeyHal.Supl.Consent
import HikeyHal.Lib.SavedNext
import HikeyHal.Supl.Traversal
import HikeyHal.Ublox.NmeaCopy
import HikeyHal.Ublox.NmeaFields
import HikeyHal.Ublox.SvChannels
import HikeyHal.Ublox.SvReport
import HikeyHal.Ublox.AlpMessages
import HikeyHal.Ublox.AgpsResponse
import HikeyHal.Lib.Calendar
import HikeyHal.Ublox.UtcTime
import HikeyHal.Ublox.Completion
import HikeyHal.Ublox.Config
import HikeyHal.Ublox.ConfigValues
import HikeyHal.Lib.Traced
import HikeyHal.Radio.HdDecode
import HikeyHal.Radio.HdReply
import HikeyHal.Radio.HdReads
import HikeyHal.Radio.HdTune
import HikeyHal.Radio.HdSetItem
import HikeyHal.Radio.HdLine
import HikeyHal.Lib.Traces
import HikeyHal.Radio.TunerTrace
import HikeyHal.Gps.SvBounds
import HikeyHal.Gps.Timestamps
import HikeyHal.Lib.BitFlags
import HikeyHal.Gralloc.Formats
import HikeyHal.Gralloc.FormatAgreement
import HikeyHal.Gralloc.AfbcHeaders
import HikeyHal.Lib.BitPoly
import HikeyHal.Installer.BootCrc
import HikeyHal.Installer.BootDownload
import HikeyHal.Lib.Image
import HikeyHal.Loader.ImageFile
import HikeyHal.Loader.GenLoader
import HikeyHal.Loader.GenLoaderHikey
import HikeyHal.Lib.ShortReads
import HikeyHal.Wpan.HciEvents
import HikeyHal.Gralloc.AllocDevice
import HikeyHal.Gralloc.YuvLock
import HikeyHal.Gralloc.Rejection
import HikeyHal.Lib.Procedures
import HikeyHal.Audio.MixerLock
import HikeyHal.Gralloc.IonCleanup
import HikeyHal.Lib.ByteMemory
import HikeyHal.Audio.ScoRepair
import HikeyHal.Audio.ScoDetection
import HikeyHal.Audio.Presentation
import HikeyHal.Lib.Hysteresis
import HikeyHal.Swid.FanControl
import HikeyHal.Lib.CStrings
import HikeyHal.Swid.SerialLines
import HikeyHal.Camd.Reaper
import HikeyHal.Lib.Templates
import HikeyHal.Camd.ExtraCommands
import HikeyHal.Power.FrequencyLimits
import HikeyHal.Lib.Leases
import HikeyHal.Ublox.UdpServer
import HikeyHal.Lib.Quantization
import HikeyHal.Supl.RefLocations
import HikeyHal.Gps.NmeaTokenizer
import HikeyHal.Lib.BitStrings
import HikeyHal.Supl.BitString
import HikeyHal.Supl.UplPosition
import HikeyHal.Supl.SubscriberIdentity
import HikeyHal.Lib.Printf
import HikeyHal.Supl.MsaResponse
import HikeyHal.Supl.AgpsLog
import HikeyHal.Supl.RefLocReads
import HikeyHal.Lib.BitFields
import HikeyHal.Supl.SubframeWords
import HikeyHal.Supl.EphUbx
import HikeyHal.Lib.BitBuffers
import HikeyHal.Lib.Codecs
import HikeyHal.Uper.PerData
import HikeyHal.Uper.PerOutp
import HikeyHal.Uper.OutpRuns
import HikeyHal.Uper.Lengths
import HikeyHal.Lib.SignedOctets
import HikeyHal.Uper.Integers
import HikeyHal.Uper.Strings
import HikeyHal.Uper.OpenTypes
import HikeyHal.Uper.Constructed
import HikeyHal.Uper.Descriptors
import HikeyHal.Uper.Places
import HikeyHal.Uper.RoundTrip
import HikeyHal.Uper.Versions
import HikeyHal.Uper.UlpDescriptors
import HikeyHal.Uper.UlpMessages
import HikeyHal.Uper.Spots
import HikeyHal.Supl.UplSend
import HikeyHal.Bluetooth.FdWatcher
import HikeyHal.Bluetooth.Sending
